import Mathlib.Algebra.BigOperators.Group.List.Lemmas
import Mathlib.Algebra.Ring.Nat
import Mathlib.Algebra.Ring.Int.Defs

/-!
# Packed projections of the target

The target's query, key and value projections, and its gate and up projections, are packed into
one weight each. The first view of a group computes the whole product and keeps it; the other views
cut their columns out of it, and the last one drops it. Outside the thresholds each view multiplies
with its own rows of the weight.

A product that is kept when a forward is aborted is never dropped: the next first view refuses to
run, and no later forward gets past it. The arithmetic is exact, so a column of the packed product
is the column of the single product.
-/

namespace SpecBlock.Kernels

/-- A tensor of rows, with its address and its leading dimensions. -/
structure Tensor (R : Type) (width : Nat) where
  dataPtr : Nat
  leading : List Nat
  rows : List (List R)
  rows_length : rows.length = leading.prod
  rows_width : ∀ row ∈ rows, row.length = width

namespace Tensor

variable {R : Type} {width : Nat}

/-- `shape`. -/
def shape (inputs : Tensor R width) : List Nat := inputs.leading ++ [width]

/-- `numel`. -/
def numel (inputs : Tensor R width) : Nat := inputs.leading.prod * width

end Tensor

section linear

variable {R : Type} [NonUnitalNonAssocSemiring R]

/-- The product of a weight row with an input row. -/
def dot (row weight : List R) : R := (List.zipWith (· * ·) row weight).sum

/-- `F.linear` without a bias, row by row. -/
def linear (rows weight : List (List R)) : List (List R) :=
  rows.map (fun row => weight.map (dot row))

/-- The columns between two offsets. -/
def columns (first last : Nat) (rows : List (List R)) : List (List R) :=
  rows.map (fun row => (row.take last).drop first)

/-- Columns of a product are the product with those rows of the weight. -/
theorem columns_linear (first last : Nat) (rows weight : List (List R)) :
    columns first last (linear rows weight) = linear rows ((weight.take last).drop first) := by
  simp [columns, linear, Function.comp_def, List.map_take, List.map_drop]

end linear

/-- The fields of a packed projection that stay. -/
structure PackedProjection (R : Type) where
  weight : List (List R)
  outputSizes : List Nat
  inFeatures : Nat
  fuseMinRows : Int
  fuseMaxRows : Option Int

/-- The product a packed projection keeps between two views, and the input it was made from. -/
structure Pending (R : Type) where
  pending : Option (List (List R))
  pendingInput : Option (Nat × List Nat)

/-- No product is kept. -/
def Pending.clear {R : Type} : Pending R := ⟨none, none⟩

/-- An `nn.Linear`. -/
structure Linear (R : Type) where
  weight : List (List R)
  inFeatures : Nat
  bias : Option (List R)

namespace PackedProjection

variable {R : Type}

/-- The constructor. -/
def create (weights : List (Linear R)) (fuseMinRows : Int) (fuseMaxRows : Option Int) :
    Except String (PackedProjection R) :=
  match weights with
  | [] => .error "packed projection requires at least one weight"
  | first :: _ =>
    if weights.any (fun linear => linear.inFeatures != first.inFeatures) then
      .error "packed projection weights must share input width"
    else .ok {
      weight := weights.flatMap Linear.weight
      outputSizes := weights.map (fun linear => linear.weight.length)
      inFeatures := first.inFeatures
      fuseMinRows := fuseMinRows
      fuseMaxRows := fuseMaxRows }

/-- `offsets[index]`. -/
def offset (packed : PackedProjection R) (index : Nat) : Nat := (packed.outputSizes.take index).sum

/-- `_slice_weight`. -/
def sliceWeight (packed : PackedProjection R) (index : Nat) : List (List R) :=
  (packed.weight.take (packed.offset (index + 1))).drop (packed.offset index)

/-- Whether an input of this many rows takes the packed product. -/
def useFused (packed : PackedProjection R) (rows : Nat) : Bool :=
  decide (packed.fuseMinRows ≤ rows) &&
    packed.fuseMaxRows.all (fun fuseMaxRows => decide ((rows : Int) ≤ fuseMaxRows))

/-- The rows of an input as `project` counts them. -/
def rowsOf {width : Nat} (packed : PackedProjection R) (inputs : Tensor R width) : Nat :=
  inputs.numel / packed.inFeatures

variable [NonUnitalNonAssocSemiring R]

/-- The columns of one view, and the product dropped by the last view. -/
def consume (packed : PackedProjection R) (index : Nat) (product : List (List R))
    (kept : Pending R) : Except String (List (List R)) × Pending R :=
  (.ok (columns (packed.offset index) (packed.offset (index + 1)) product),
    if index + 1 = packed.outputSizes.length then .clear else kept)

/-- `project`: the output of a view, or what it raises, and what is kept. -/
def project {width : Nat} (packed : PackedProjection R) (index : Nat) (inputs : Tensor R width)
    (kept : Pending R) : Except String (List (List R)) × Pending R :=
  if width ≠ packed.inFeatures then
    (.error ("projection input width " ++ toString width ++ " != " ++ toString packed.inFeatures),
      kept)
  else
    let useFused := packed.useFused (packed.rowsOf inputs)
    let inputKey := (inputs.dataPtr, inputs.shape)
    if index = 0 then
      if kept.pending.isSome then
        (.error "previous fused projection was not fully consumed", kept)
      else if useFused = false then (.ok (linear inputs.rows (packed.sliceWeight 0)), kept)
      else
        let product := linear inputs.rows packed.weight
        packed.consume index product ⟨some product, some inputKey⟩
    else
      match kept.pending with
      | none =>
        if useFused then (.error "fused projection consumers were called out of order", kept)
        else (.ok (linear inputs.rows (packed.sliceWeight index)), kept)
      | some product =>
        if kept.pendingInput ≠ some inputKey then
          (.error "fused projection consumers received different inputs", kept)
        else packed.consume index product kept

end PackedProjection

/-- The packed projections of a model, by layer. -/
inductive Group where
  | qkv (layer : Nat)
  | gateUp (layer : Nat)
deriving DecidableEq, Repr

/-- The projections of one decoder layer. -/
structure Layer (R : Type) where
  qProj : Linear R
  kProj : Linear R
  vProj : Linear R
  gateProj : Linear R
  upProj : Linear R

namespace Layer

variable {R : Type}

/-- The projections that are packed for attention. -/
def qkv (layer : Layer R) : List (Linear R) := [layer.qProj, layer.kProj, layer.vProj]

/-- The projections that are packed for the MLP. -/
def gateUp (layer : Layer R) : List (Linear R) := [layer.gateProj, layer.upProj]

end Layer

/-- A decoder-only target: every projection here takes the hidden states. -/
structure TargetModel (R : Type) (hidden : Nat) where
  layers : List (Layer R)
  hidden_pos : 0 < hidden
  takesHidden : ∀ layer ∈ layers, ∀ linear ∈ layer.qkv ++ layer.gateUp, linear.inFeatures = hidden

/-- A layer after packing. -/
structure FusedLayer (R : Type) where
  fusedQkvProj : PackedProjection R
  fusedGateUpProj : PackedProjection R

/-- `_require_biasless` on linear projections. -/
def requireBiasless {R : Type} (linears : List (Linear R)) (name : String) : Except String Unit :=
  if linears.any (fun linear => linear.bias.isSome) then
    .error (name ++ " fusion requires bias-free projections")
  else .ok ()

/-- Pack one layer. -/
def fuseLayer {R : Type} (gateUpFuseMinRows : Int) (layer : Layer R) :
    Except String (FusedLayer R) := do
  requireBiasless layer.qkv "QKV"
  let fusedQkvProj ← PackedProjection.create layer.qkv 1 (some 128)
  requireBiasless layer.gateUp "gate/up"
  let fusedGateUpProj ← PackedProjection.create layer.gateUp gateUpFuseMinRows none
  return ⟨fusedQkvProj, fusedGateUpProj⟩

/-- `fuse_llama_target_projections`. The layers are fused in order; the first one that cannot be
fails the call. -/
def fuseLlamaTargetProjections {R : Type} {hidden : Nat} (model : TargetModel R hidden)
    (gateUpFuseMinRows : Int) : Except String (List (FusedLayer R)) :=
  model.layers.mapM (fuseLayer gateUpFuseMinRows)

/-- What the attention and the MLP of one layer are given in a forward. -/
structure LayerInputs (R : Type) (hidden : Nat) where
  attention : Tensor R hidden
  mlp : Tensor R hidden

/-- A packed projection called in a forward with its input. -/
structure GroupCall (R : Type) (hidden : Nat) where
  group : Group
  packed : PackedProjection R
  inputs : Tensor R hidden

/-- One call of a view. -/
structure ViewCall (R : Type) (hidden : Nat) extends GroupCall R hidden where
  index : Nat

/-- The views of a group are called in order on one input. -/
def GroupCall.views {R : Type} {hidden : Nat} (call : GroupCall R hidden) :
    List (ViewCall R hidden) :=
  (List.range call.packed.outputSizes.length).map (fun index => ⟨call, index⟩)

/-- The groups a layer calls. With the fused activation an MLP input of many rows goes past its
views. -/
def layerCalls {R : Type} {hidden : Nat} (fuseSiluAndMul : Bool) (layer : Nat)
    (fused : FusedLayer R) (inputs : LayerInputs R hidden) : List (GroupCall R hidden) :=
  ⟨.qkv layer, fused.fusedQkvProj, inputs.attention⟩ ::
    if fuseSiluAndMul = true ∧
        fused.fusedGateUpProj.fuseMinRows ≤ fused.fusedGateUpProj.rowsOf inputs.mlp then []
    else [⟨.gateUp layer, fused.fusedGateUpProj, inputs.mlp⟩]

/-- The groups a forward calls, layer by layer. -/
def groupCalls {R : Type} {hidden : Nat} (fuseSiluAndMul : Bool) (inputs : Nat → LayerInputs R hidden) :
    Nat → List (FusedLayer R) → List (GroupCall R hidden)
  | _, [] => []
  | layer, fused :: rest =>
    layerCalls fuseSiluAndMul layer fused (inputs layer) ++
      groupCalls fuseSiluAndMul inputs (layer + 1) rest

/-- A target forward: the inputs of its layers, and after how many view calls an exception ends it,
if one does. -/
structure Forward (R : Type) (hidden : Nat) where
  inputs : Nat → LayerInputs R hidden
  abort : Option Nat

/-- What every packed projection keeps. -/
abbrev Pendings (R : Type) := Group → Pending R

section run

variable {R : Type} [NonUnitalNonAssocSemiring R] {hidden : Nat}

/-- One view call. -/
def ViewCall.run (call : ViewCall R hidden) (kept : Pendings R) :
    Except String (List (List R)) × Pendings R :=
  let projected := call.packed.project call.index call.inputs (kept call.group)
  (projected.1, Function.update kept call.group projected.2)

/-- View calls one after the other. What a view raises ends the forward. -/
def runViews : List (ViewCall R hidden) → Pendings R →
    Except String (List (List (List R))) × Pendings R
  | [], kept => (.ok [], kept)
  | call :: rest, kept =>
    match call.run kept with
    | (.error reason, kept) => (.error reason, kept)
    | (.ok output, kept) =>
      match runViews rest kept with
      | (.error reason, kept) => (.error reason, kept)
      | (.ok outputs, kept) => (.ok (output :: outputs), kept)

/-- The view calls a forward makes before it ends or is aborted. -/
def Forward.views (fuseSiluAndMul : Bool) (layers : List (FusedLayer R))
    (forward : Forward R hidden) : List (ViewCall R hidden) :=
  let views := (groupCalls fuseSiluAndMul forward.inputs 0 layers).flatMap GroupCall.views
  match forward.abort with
  | none => views
  | some calls => views.take calls

/-- A sequence of forwards: what each gives or raises. -/
def runForwards (fuseSiluAndMul : Bool) (layers : List (FusedLayer R)) :
    List (Forward R hidden) → Pendings R → List (Except String (List (List (List R))))
  | [], _ => []
  | forward :: rest, kept =>
    let ran := runViews (forward.views fuseSiluAndMul layers) kept
    ran.1 :: runForwards fuseSiluAndMul layers rest ran.2

end run

section group

variable {R : Type} [NonUnitalNonAssocSemiring R] {hidden : Nat}

/-- What a view gives when its own rows of the weight are used. -/
def ViewCall.single (call : ViewCall R hidden) : List (List R) :=
  linear call.inputs.rows (call.packed.sliceWeight call.index)

/-- Whether the views of a group take the packed product. -/
def GroupCall.fused (call : GroupCall R hidden) : Bool :=
  call.packed.useFused (call.packed.rowsOf call.inputs)

/-- What a group keeps between its first and its last view. -/
def GroupCall.kept (call : GroupCall R hidden) : Pending R :=
  ⟨some (linear call.inputs.rows call.packed.weight),
    some (call.inputs.dataPtr, call.inputs.shape)⟩

theorem runViews_append (first second : List (ViewCall R hidden)) (kept : Pendings R) :
    runViews (first ++ second) kept =
      match runViews first kept with
      | (.error reason, kept) => (.error reason, kept)
      | (.ok outputs, kept) =>
        match runViews second kept with
        | (.error reason, kept) => (.error reason, kept)
        | (.ok others, kept) => (.ok (outputs ++ others), kept) := by
  induction first generalizing kept with
  | nil =>
    simp only [List.nil_append, runViews]
    rcases runViews second kept with ⟨reason | outputs, kept⟩ <;> rfl
  | cons call rest ih =>
    simp only [List.cons_append, runViews]
    rcases call.run kept with ⟨reason | output, kept⟩
    · rfl
    · simp only [ih]
      rcases runViews rest kept with ⟨reason | outputs, kept⟩
      · rfl
      · simp only
        rcases runViews second kept with ⟨reason | others, kept⟩ <;> rfl

theorem consume_eq (call : GroupCall R hidden) (index : Nat) (kept : Pending R) :
    call.packed.consume index (linear call.inputs.rows call.packed.weight) kept =
      (.ok (ViewCall.single ⟨call, index⟩),
        if index + 1 = call.packed.outputSizes.length then .clear else kept) := by
  simp only [PackedProjection.consume, columns_linear, ViewCall.single,
    PackedProjection.sliceWeight]

/-- What is kept after some views of a group. -/
def GroupCall.keptAfter (call : GroupCall R hidden) (count : Nat) : Pending R :=
  if call.fused = true ∧ 0 < count ∧ count < call.packed.outputSizes.length then call.kept
  else .clear

theorem project_next (call : GroupCall R hidden) (wide : call.packed.inFeatures = hidden)
    (count : Nat) (inside : count < call.packed.outputSizes.length) :
    call.packed.project count call.inputs (call.keptAfter count) =
      (.ok (ViewCall.single ⟨call, count⟩), call.keptAfter (count + 1)) := by
  have sameWidth : ¬ hidden ≠ call.packed.inFeatures := by simp [wide]
  have last : (if count + 1 = call.packed.outputSizes.length then Pending.clear else call.kept) =
      if 0 < count + 1 ∧ count + 1 < call.packed.outputSizes.length then call.kept
      else .clear := by
    split_ifs <;> first | rfl | omega
  unfold PackedProjection.project
  rw [if_neg sameWidth]
  cases fused : call.fused with
  | false =>
    have never (count : Nat) : call.keptAfter count = .clear := by simp [GroupCall.keptAfter, fused]
    have separate : call.packed.useFused (call.packed.rowsOf call.inputs) = false := fused
    rw [never, never]
    by_cases first : count = 0
    · subst first
      simp [separate, Pending.clear, ViewCall.single]
    · simp [separate, first, Pending.clear, ViewCall.single]
  | true =>
    have packed : call.packed.useFused (call.packed.rowsOf call.inputs) = true := fused
    have after : call.keptAfter (count + 1) =
        if count + 1 = call.packed.outputSizes.length then .clear else call.kept := by
      rw [last, GroupCall.keptAfter]
      simp [fused]
    rw [after]
    by_cases first : count = 0
    · subst first
      have none : (call.keptAfter 0).pending.isSome = false := by
        simp [GroupCall.keptAfter, Pending.clear]
      simp only [none, packed, if_true, Bool.false_eq_true, if_false, Bool.true_eq_false]
      exact consume_eq call 0 call.kept
    · have before : call.keptAfter count = call.kept := by
        rw [GroupCall.keptAfter, if_pos ⟨fused, by omega, inside⟩]
      rw [before]
      simp only [first, if_false, GroupCall.kept, ne_eq, not_true_eq_false]
      exact consume_eq call count call.kept

/-- The first views of a group, run while nothing of it is kept. -/
theorem runViews_group (call : GroupCall R hidden) (wide : call.packed.inFeatures = hidden)
    (kept : Pendings R) (clear : kept call.group = .clear) (count : Nat)
    (inside : count ≤ call.packed.outputSizes.length) :
    runViews (call.views.take count) kept =
      (.ok ((call.views.take count).map ViewCall.single),
        Function.update kept call.group (call.keptAfter count)) := by
  induction count with
  | zero =>
    have none : call.keptAfter 0 = kept call.group := by simp [GroupCall.keptAfter, clear]
    rw [none, Function.update_eq_self]
    rfl
  | succ count ih =>
    have next : call.views[count]? = some ⟨call, count⟩ := by
      have bound : count < call.packed.outputSizes.length := inside
      simp [GroupCall.views, bound]
    rw [List.take_add_one, next, runViews_append, ih (by omega)]
    simp only [Option.toList_some, runViews, ViewCall.run, Function.update_self,
      project_next call wide count (by omega), Function.update_idem, List.map_append]
    rfl

theorem runViews_frame (views : List (ViewCall R hidden)) (kept : Pendings R) (group : Group)
    (others : ∀ view ∈ views, view.group ≠ group) : (runViews views kept).2 group = kept group := by
  induction views generalizing kept with
  | nil => rfl
  | cons view rest ih =>
    have here : (view.run kept).2 group = kept group :=
      Function.update_of_ne (Ne.symm (others view List.mem_cons_self)) _ _
    have later := fun kept => ih kept
      (fun other member => others other (List.mem_cons_of_mem _ member))
    simp only [runViews]
    rcases ran : view.run kept with ⟨reason | output, after⟩
    · simpa [ran] using here
    · have unchanged := later after
      rcases continued : runViews rest after with ⟨reason | outputs, final⟩
      · simp only [continued, ran] at unchanged here ⊢
        rw [unchanged, here]
      · simp only [continued, ran] at unchanged here ⊢
        rw [unchanged, here]

theorem runViews_refused (call : GroupCall R hidden) (wide : call.packed.inFeatures = hidden)
    (kept : Pendings R) (blocked : (kept call.group).pending.isSome)
    (rest : List (ViewCall R hidden)) :
    runViews (⟨call, 0⟩ :: rest) kept =
      (.error "previous fused projection was not fully consumed", kept) := by
  have sameWidth : ¬ hidden ≠ call.packed.inFeatures := by simp [wide]
  have refused : ViewCall.run ⟨call, 0⟩ kept =
      (.error "previous fused projection was not fully consumed", kept) := by
    simp only [ViewCall.run, PackedProjection.project, if_neg sameWidth, blocked, if_true,
      Function.update_eq_self]
  simp only [runViews, refused]

end group

section forward

variable {R : Type} [NonUnitalNonAssocSemiring R] {hidden : Nat}

/-- The exception comes after the first and before the last view of a group that keeps a
product. -/
def StopsInside (calls : List (GroupCall R hidden)) (count : Nat) : Prop :=
  ∃ before call after, calls = before ++ call :: after ∧ call.fused = true ∧
    (before.flatMap GroupCall.views).length < count ∧
    count < (before.flatMap GroupCall.views).length + call.packed.outputSizes.length

omit [NonUnitalNonAssocSemiring R] in
@[simp] theorem views_length (call : GroupCall R hidden) :
    call.views.length = call.packed.outputSizes.length := by
  simp [GroupCall.views]

omit [NonUnitalNonAssocSemiring R] in
/-- The exception falls into the first group or into a later one. -/
theorem stopsInside_cons (call : GroupCall R hidden) (rest : List (GroupCall R hidden))
    (count : Nat) : StopsInside (call :: rest) count ↔
      call.fused = true ∧ 0 < count ∧ count < call.packed.outputSizes.length ∨
        StopsInside rest (count - call.packed.outputSizes.length) := by
  constructor
  · rintro ⟨before, inner, after, listed, fused, above, below⟩
    cases before with
    | nil =>
      obtain ⟨rfl, rfl⟩ := List.cons_eq_cons.mp listed
      exact .inl ⟨fused, by simpa using above, by simpa using below⟩
    | cons first before =>
      obtain ⟨rfl, rfl⟩ := List.cons_eq_cons.mp listed
      rw [List.flatMap_cons, List.length_append, views_length] at above below
      exact .inr ⟨before, inner, after, rfl, fused, by omega, by omega⟩
  · rintro (⟨fused, above, below⟩ | ⟨before, inner, after, rfl, fused, above, below⟩)
    · exact ⟨[], call, rest, rfl, fused, by simpa using above, by simpa using below⟩
    · refine ⟨call :: before, inner, after, rfl, fused, ?_, ?_⟩
      · rw [List.flatMap_cons, List.length_append, views_length]
        omega
      · rw [List.flatMap_cons, List.length_append, views_length]
        omega

/-- Running a forward while nothing is kept: every view gives its own output, and something is kept
afterwards exactly when the exception falls inside a group. -/
theorem runViews_clear (calls : List (GroupCall R hidden))
    (wide : ∀ call ∈ calls, call.packed.inFeatures = hidden) (count : Nat) :
    ∃ after, runViews ((calls.flatMap GroupCall.views).take count) (fun _ => .clear) =
        (.ok (((calls.flatMap GroupCall.views).take count).map ViewCall.single), after) ∧
      (¬ StopsInside calls count → after = fun _ => .clear) ∧
      (StopsInside calls count →
        ∃ call ∈ calls, call.fused = true ∧ (after call.group).pending.isSome) := by
  induction calls generalizing count with
  | nil =>
    refine ⟨fun _ => .clear, by simp [runViews], fun _ => rfl, ?_⟩
    rintro ⟨before, call, after, listed, -⟩
    simp at listed
  | cons call rest ih =>
    have here := wide call List.mem_cons_self
    by_cases inside : count < call.packed.outputSizes.length
    · have cut : ((call :: rest).flatMap GroupCall.views).take count = call.views.take count := by
        rw [List.flatMap_cons, List.take_append_of_le_length (by simpa using inside.le)]
      have later : ¬ StopsInside rest (count - call.packed.outputSizes.length) := by
        rintro ⟨before, inner, after, -, -, above, -⟩
        omega
      refine ⟨_, by rw [cut, runViews_group call here _ rfl count inside.le], ?_, ?_⟩
      · intro outside
        rw [stopsInside_cons] at outside
        have none : call.keptAfter count = .clear := by
          rw [GroupCall.keptAfter, if_neg]
          exact fun stop => outside (.inl stop)
        rw [none, Function.update_eq_self]
      · intro stop
        rcases (stopsInside_cons call rest count).mp stop with stop | stop
        · refine ⟨call, List.mem_cons_self, stop.1, ?_⟩
          rw [Function.update_self, GroupCall.keptAfter, if_pos stop]
          rfl
        · exact absurd stop later
    · obtain ⟨after, ran, clear, blocked⟩ := ih
        (fun other member => wide other (List.mem_cons_of_mem _ member))
        (count - call.packed.outputSizes.length)
      have whole := runViews_group call here (fun _ => .clear) rfl call.packed.outputSizes.length le_rfl
      have none : call.keptAfter call.packed.outputSizes.length = .clear := by
        simp [GroupCall.keptAfter]
      rw [none, Function.update_eq_self, List.take_of_length_le (by simp)] at whole
      have cut : ((call :: rest).flatMap GroupCall.views).take count = call.views ++
          (rest.flatMap GroupCall.views).take (count - call.packed.outputSizes.length) := by
        rw [List.flatMap_cons, List.take_append, List.take_of_length_le (by simpa using inside),
          views_length]
      have stops : StopsInside (call :: rest) count ↔
          StopsInside rest (count - call.packed.outputSizes.length) := by
        rw [stopsInside_cons]
        exact or_iff_right (fun stop => inside stop.2.2)
      refine ⟨after, ?_, ?_, ?_⟩
      · rw [cut, runViews_append, whole]
        simp only [ran, List.map_append]
      · rw [stops]
        exact clear
      · rw [stops]
        intro stop
        obtain ⟨kept, member, fused, pending⟩ := blocked stop
        exact ⟨kept, List.mem_cons_of_mem _ member, fused, pending⟩

/-- What a group keeps before its first view stays, and a forward that reaches it is refused. -/
theorem runViews_blocked (calls : List (GroupCall R hidden))
    (wide : ∀ call ∈ calls, call.packed.inFeatures = hidden ∧ 0 < call.packed.outputSizes.length)
    (group : Group) (kept : Pendings R) (blocked : (kept group).pending.isSome) (count : Nat) :
    (runViews ((calls.flatMap GroupCall.views).take count) kept).2 group = kept group ∧
      ((∃ call ∈ calls, call.group = group) → (calls.flatMap GroupCall.views).length ≤ count →
        ∃ reason, (runViews ((calls.flatMap GroupCall.views).take count) kept).1 = .error reason) := by
  induction calls generalizing count kept with
  | nil => simp [runViews]
  | cons call rest ih =>
    obtain ⟨width, nonempty⟩ := wide call List.mem_cons_self
    have later := ih
      (fun other member => wide other (List.mem_cons_of_mem _ member))
    by_cases same : call.group = group
    · subst same
      obtain ⟨others, views⟩ : ∃ others, (call :: rest).flatMap GroupCall.views =
          (⟨call, 0⟩ : ViewCall R hidden) :: others := by
        obtain ⟨less, size⟩ : ∃ less, call.packed.outputSizes.length = less + 1 :=
          ⟨_, (Nat.sub_one_add_one nonempty.ne').symm⟩
        rw [List.flatMap_cons, GroupCall.views, size, List.range_succ_eq_map]
        exact ⟨_, rfl⟩
      rw [views]
      cases count with
      | zero => exact ⟨rfl, fun _ whole => absurd whole (by simp)⟩
      | succ count =>
        rw [List.take_succ_cons, runViews_refused call width kept blocked]
        exact ⟨rfl, fun _ _ => ⟨_, rfl⟩⟩
    · have frame := runViews_frame (call.views.take count) kept group (by
        intro view member
        obtain ⟨index, -, rfl⟩ := List.mem_map.mp (List.mem_of_mem_take member)
        exact same)
      have cut : ((call :: rest).flatMap GroupCall.views).take count = call.views.take count ++
          (rest.flatMap GroupCall.views).take (count - call.packed.outputSizes.length) := by
        rw [List.flatMap_cons, List.take_append, views_length]
      rw [cut, runViews_append]
      rcases ran : runViews (call.views.take count) kept with ⟨reason | outputs, after⟩
      · rw [ran] at frame
        exact ⟨frame, fun _ _ => ⟨reason, rfl⟩⟩
      · rw [ran] at frame
        replace frame : after group = kept group := frame
        dsimp only
        obtain ⟨stays, refused⟩ := later after (by rw [frame]; exact blocked)
          (count - call.packed.outputSizes.length)
        constructor
        · rcases continued : runViews ((rest.flatMap GroupCall.views).take
              (count - call.packed.outputSizes.length)) after with ⟨reason | others, final⟩
          · rw [continued] at stays
            exact stays.trans frame
          · rw [continued] at stays
            exact stays.trans frame
        · rintro ⟨other, member, named⟩ whole
          rw [List.flatMap_cons, List.length_append, views_length] at whole
          have tail : other ∈ rest := by
            rcases List.mem_cons.mp member with rfl | tail
            · exact absurd named same
            · exact tail
          obtain ⟨reason, raised⟩ := refused ⟨other, tail, named⟩ (by omega)
          refine ⟨reason, ?_⟩
          rcases continued : runViews ((rest.flatMap GroupCall.views).take
              (count - call.packed.outputSizes.length)) after with ⟨reason | others, final⟩
          · rw [continued] at raised
            exact raised
          · rw [continued] at raised
            cases raised

omit [NonUnitalNonAssocSemiring R] in
/-- A layer is packed into the rows of its weights, one after the other. -/
theorem fuseLayer_eq {gateUpFuseMinRows : Int} {layer : Layer R} {fused : FusedLayer R}
    (packed : fuseLayer gateUpFuseMinRows layer = .ok fused) :
    fused = {
      fusedQkvProj := {
        weight := layer.qkv.flatMap Linear.weight
        outputSizes := layer.qkv.map (fun linear => linear.weight.length)
        inFeatures := layer.qProj.inFeatures
        fuseMinRows := 1
        fuseMaxRows := some 128 }
      fusedGateUpProj := {
        weight := layer.gateUp.flatMap Linear.weight
        outputSizes := layer.gateUp.map (fun linear => linear.weight.length)
        inFeatures := layer.gateProj.inFeatures
        fuseMinRows := gateUpFuseMinRows
        fuseMaxRows := none } } := by
  have joined {first : Linear R} {rest : List (Linear R)} {fewest : Int} {most : Option Int}
      {projection : PackedProjection R}
      (created : PackedProjection.create (first :: rest) fewest most = .ok projection) :
      projection = ⟨(first :: rest).flatMap Linear.weight,
        (first :: rest).map (fun linear => linear.weight.length), first.inFeatures, fewest, most⟩ := by
    unfold PackedProjection.create at created
    dsimp only at created
    split_ifs at created
    injection created with same
    exact same.symm
  unfold fuseLayer at packed
  cases biasless : requireBiasless layer.qkv "QKV" with
  | error reason =>
    rw [biasless] at packed
    cases packed
  | ok =>
    cases qkv : PackedProjection.create layer.qkv 1 (some 128) with
    | error reason =>
      rw [biasless, qkv] at packed
      cases packed
    | ok fusedQkvProj =>
      cases biasless' : requireBiasless layer.gateUp "gate/up" with
      | error reason =>
        rw [biasless, qkv, biasless'] at packed
        cases packed
      | ok =>
        cases gateUp : PackedProjection.create layer.gateUp gateUpFuseMinRows none with
        | error reason =>
          rw [biasless, qkv, biasless', gateUp] at packed
          cases packed
        | ok fusedGateUpProj =>
          rw [biasless, qkv, biasless', gateUp] at packed
          injection packed with same
          rw [← same, joined qkv, joined gateUp]
          rfl

end forward

section layers

variable {R : Type} [NonUnitalNonAssocSemiring R] {hidden : Nat}

/-- What the unpacked projections of a layer return for its inputs. -/
def unfusedLayer (fuseSiluAndMul : Bool) (gateUpFuseMinRows : Int) (layer : Layer R)
    (inputs : LayerInputs R hidden) : List (List (List R)) :=
  layer.qkv.map (fun projection => linear inputs.attention.rows projection.weight) ++
    if fuseSiluAndMul = true ∧ gateUpFuseMinRows ≤ inputs.mlp.rows.length then []
    else layer.gateUp.map (fun projection => linear inputs.mlp.rows projection.weight)

/-- What the unpacked projections of a model return in a forward, for every view it calls. -/
def unfusedForward (fuseSiluAndMul : Bool) (gateUpFuseMinRows : Int)
    (inputs : Nat → LayerInputs R hidden) : Nat → List (Layer R) → List (List (List R))
  | _, [] => []
  | index, layer :: rest =>
    unfusedLayer fuseSiluAndMul gateUpFuseMinRows layer (inputs index) ++
      unfusedForward fuseSiluAndMul gateUpFuseMinRows inputs (index + 1) rest

/-- The views of a group return what the unpacked projections return. -/
theorem views_single (group : Group) (linears : List (Linear R)) (inFeatures : Nat) (fewest : Int)
    (most : Option Int) (inputs : Tensor R hidden) :
    (GroupCall.mk group ⟨linears.flatMap Linear.weight,
        linears.map (fun linear => linear.weight.length), inFeatures, fewest, most⟩
        inputs).views.map ViewCall.single =
      linears.map (fun projection => linear inputs.rows projection.weight) := by
  apply List.ext_getElem
  · simp [GroupCall.views]
  · intro index bound _
    have inside : index < (linears.map Linear.weight).length := by simpa [GroupCall.views] using bound
    have slice := List.drop_take_succ_flatten_eq_getElem (linears.map Linear.weight) index inside
    rw [List.map_map, List.getElem_map] at slice
    simp only [GroupCall.views, List.getElem_map, List.getElem_range, ViewCall.single,
      PackedProjection.sliceWeight, PackedProjection.offset, ← List.flatMap_def] at slice ⊢
    rw [← slice]
    rfl

omit [NonUnitalNonAssocSemiring R] in
theorem fuse_forall₂ {gateUpFuseMinRows : Int} {layers : List (Layer R)}
    {fused : List (FusedLayer R)} (packed : layers.mapM (fuseLayer gateUpFuseMinRows) = .ok fused) :
    List.Forall₂ (fun layer fused => fuseLayer gateUpFuseMinRows layer = .ok fused) layers fused := by
  induction layers generalizing fused with
  | nil =>
    cases packed
    exact .nil
  | cons layer rest ih =>
    rw [List.mapM_cons] at packed
    cases first : fuseLayer gateUpFuseMinRows layer with
    | error reason =>
      rw [first] at packed
      cases packed
    | ok one =>
      cases others : rest.mapM (fuseLayer gateUpFuseMinRows) with
      | error reason =>
        rw [first, others] at packed
        cases packed
      | ok more =>
        rw [first, others] at packed
        cases packed
        exact .cons first (ih others)

omit [NonUnitalNonAssocSemiring R] in
/-- The rows of an input that has the width of the projection. -/
theorem rowsOf_eq (packed : PackedProjection R) (inputs : Tensor R hidden) (positive : 0 < hidden)
    (wide : packed.inFeatures = hidden) : packed.rowsOf inputs = inputs.rows.length := by
  rw [PackedProjection.rowsOf, Tensor.numel, wide, Nat.mul_div_cancel _ positive, inputs.rows_length]

/-- A packed layer: what its views return, and that its groups take the hidden states. -/
theorem layerCalls_eq {gateUpFuseMinRows : Int} {layer : Layer R} {fused : FusedLayer R}
    (packed : fuseLayer gateUpFuseMinRows layer = .ok fused) (positive : 0 < hidden)
    (takesHidden : ∀ linear ∈ layer.qkv ++ layer.gateUp, linear.inFeatures = hidden)
    (fuseSiluAndMul : Bool) (index : Nat) (inputs : LayerInputs R hidden) :
    ((layerCalls fuseSiluAndMul index fused inputs).flatMap GroupCall.views).map ViewCall.single =
        unfusedLayer fuseSiluAndMul gateUpFuseMinRows layer inputs ∧
      ∀ call ∈ layerCalls fuseSiluAndMul index fused inputs,
        call.packed.inFeatures = hidden ∧ 0 < call.packed.outputSizes.length := by
  have query : layer.qProj.inFeatures = hidden := takesHidden _ (by simp [Layer.qkv])
  have gate : layer.gateProj.inFeatures = hidden := takesHidden _ (by simp [Layer.gateUp])
  rw [fuseLayer_eq packed]
  have rows := rowsOf_eq (⟨layer.gateUp.flatMap Linear.weight,
    layer.gateUp.map (fun linear => linear.weight.length), layer.gateProj.inFeatures,
    gateUpFuseMinRows, none⟩ : PackedProjection R) inputs.mlp positive gate
  simp only [layerCalls, unfusedLayer, rows]
  split_ifs with skipped
  · constructor
    · simp only [List.flatMap_cons, List.flatMap_nil, List.append_nil, views_single]
    · intro call member
      obtain rfl := List.mem_singleton.mp member
      exact ⟨query, by simp [Layer.qkv]⟩
  · constructor
    · simp only [List.flatMap_cons, List.flatMap_nil, List.append_nil, List.map_append, views_single]
    · intro call member
      rcases List.mem_cons.mp member with rfl | member
      · exact ⟨query, by simp [Layer.qkv]⟩
      · obtain rfl := List.mem_singleton.mp member
        exact ⟨gate, by simp [Layer.gateUp]⟩

theorem groupCalls_eq {gateUpFuseMinRows : Int} {layers : List (Layer R)}
    {fused : List (FusedLayer R)}
    (packed : List.Forall₂ (fun layer fused => fuseLayer gateUpFuseMinRows layer = .ok fused) layers
      fused)
    (positive : 0 < hidden)
    (takesHidden : ∀ layer ∈ layers, ∀ linear ∈ layer.qkv ++ layer.gateUp,
      linear.inFeatures = hidden)
    (fuseSiluAndMul : Bool) (index : Nat) (inputs : Nat → LayerInputs R hidden) :
    ((groupCalls fuseSiluAndMul inputs index fused).flatMap GroupCall.views).map ViewCall.single =
        unfusedForward fuseSiluAndMul gateUpFuseMinRows inputs index layers ∧
      ∀ call ∈ groupCalls fuseSiluAndMul inputs index fused,
        call.packed.inFeatures = hidden ∧ 0 < call.packed.outputSizes.length := by
  induction packed generalizing index with
  | nil => simp [groupCalls, unfusedForward]
  | cons here _ ih =>
    obtain ⟨outputs, wide⟩ := layerCalls_eq here positive (takesHidden _ List.mem_cons_self)
      fuseSiluAndMul index (inputs index)
    obtain ⟨later, others⟩ := ih
      (fun layer member => takesHidden layer (List.mem_cons_of_mem _ member)) (index + 1)
    constructor
    · rw [groupCalls, List.flatMap_append, List.map_append, outputs, later]
      rfl
    · intro call member
      rcases List.mem_append.mp member with first | rest
      · exact wide call first
      · exact others call rest

omit [NonUnitalNonAssocSemiring R] in
/-- A group that keeps a product in one forward is called in every forward. -/
theorem groupCalls_again (fuseSiluAndMul : Bool) (inputs others : Nat → LayerInputs R hidden)
    (index : Nat) (fused : List (FusedLayer R)) {call : GroupCall R hidden}
    (member : call ∈ groupCalls fuseSiluAndMul inputs index fused) (keeps : call.fused = true) :
    ∃ again ∈ groupCalls fuseSiluAndMul others index fused, again.group = call.group := by
  induction fused generalizing index with
  | nil => simp [groupCalls] at member
  | cons layer rest ih =>
    rcases List.mem_append.mp member with first | later
    · rcases List.mem_cons.mp first with rfl | gateUp
      · exact ⟨⟨.qkv index, layer.fusedQkvProj, (others index).attention⟩,
          List.mem_append_left _ List.mem_cons_self, rfl⟩
      · split_ifs at gateUp with skipped
        · simp at gateUp
        · obtain rfl := List.mem_singleton.mp gateUp
          cases silu : fuseSiluAndMul with
          | true =>
            have few : ¬ layer.fusedGateUpProj.fuseMinRows ≤
                layer.fusedGateUpProj.rowsOf (inputs index).mlp := fun many => skipped ⟨silu, many⟩
            simp [GroupCall.fused, PackedProjection.useFused, few] at keeps
          | false =>
            refine ⟨⟨.gateUp index, layer.fusedGateUpProj, (others index).mlp⟩, ?_, rfl⟩
            exact List.mem_append_left _ (List.mem_cons_of_mem _ (by simp))
    · obtain ⟨again, listed, same⟩ := ih (index + 1) later
      exact ⟨again, List.mem_append_right _ listed, same⟩

/-- The exception of a forward comes between the first and the last view of a group that keeps its
product. -/
def Forward.AbortsInside (fuseSiluAndMul : Bool) (layers : List (FusedLayer R))
    (forward : Forward R hidden) : Prop :=
  ∃ count, forward.abort = some count ∧
    StopsInside (groupCalls fuseSiluAndMul forward.inputs 0 layers) count

/-- A forward that is not aborted returns what the unpacked projections return. -/
def Forward.Exact (fuseSiluAndMul : Bool) (gateUpFuseMinRows : Int) (layers : List (Layer R))
    (forward : Forward R hidden) (outcome : Except String (List (List (List R)))) : Prop :=
  forward.abort = none →
    outcome = .ok (unfusedForward fuseSiluAndMul gateUpFuseMinRows forward.inputs 0 layers)

/-- After a product was left behind, no forward that is not aborted returns. -/
theorem forwards_blocked (gateUpFuseMinRows : Int) (original : List (Layer R))
    {layers : List (FusedLayer R)} (fuseSiluAndMul : Bool)
    (wide : ∀ inputs : Nat → LayerInputs R hidden,
      ∀ call ∈ groupCalls fuseSiluAndMul inputs 0 layers,
        call.packed.inFeatures = hidden ∧ 0 < call.packed.outputSizes.length)
    (group : Group)
    (called : ∀ inputs : Nat → LayerInputs R hidden,
      ∃ call ∈ groupCalls fuseSiluAndMul inputs 0 layers, call.group = group)
    (kept : Pendings R) (blocked : (kept group).pending.isSome) (history : List (Forward R hidden)) :
    List.Forall₂ (Forward.Exact fuseSiluAndMul gateUpFuseMinRows original) history
        (runForwards fuseSiluAndMul layers history kept) ↔
      ∀ forward ∈ history, forward.abort ≠ none := by
  induction history generalizing kept with
  | nil => simp [runForwards]
  | cons forward rest ih =>
    have stays : (runViews (forward.views fuseSiluAndMul layers) kept).2 group = kept group ∧
        (forward.abort = none → ∃ reason,
          (runViews (forward.views fuseSiluAndMul layers) kept).1 = .error reason) := by
      unfold Forward.views
      cases abort : forward.abort with
      | none =>
        have ran := runViews_blocked _ (wide forward.inputs) group kept blocked
          ((groupCalls fuseSiluAndMul forward.inputs 0 layers).flatMap GroupCall.views).length
        rw [List.take_length] at ran
        exact ⟨ran.1, fun _ => ran.2 (called forward.inputs) le_rfl⟩
      | some count =>
        exact ⟨(runViews_blocked _ (wide forward.inputs) group kept blocked count).1, by simp⟩
    have later := ih
      (runViews (forward.views fuseSiluAndMul layers) kept).2 (by rw [stays.1]; exact blocked)
    rw [runForwards, List.forall₂_cons, later, List.forall_mem_cons]
    refine and_congr_left (fun _ => ⟨?_, fun aborted whole => absurd whole aborted⟩)
    intro exact whole
    obtain ⟨reason, raised⟩ := stays.2 whole
    have returned := exact whole
    rw [raised] at returned
    cases returned

theorem forward_clear {gateUpFuseMinRows : Int} {original : List (Layer R)}
    {layers : List (FusedLayer R)}
    (packed : List.Forall₂ (fun layer fused => fuseLayer gateUpFuseMinRows layer = .ok fused) original
      layers)
    (positive : 0 < hidden)
    (takesHidden : ∀ layer ∈ original, ∀ linear ∈ layer.qkv ++ layer.gateUp,
      linear.inFeatures = hidden)
    (fuseSiluAndMul : Bool) (forward : Forward R hidden) :
    ∃ after, (runViews (forward.views fuseSiluAndMul layers) (fun _ => .clear)).2 = after ∧
      forward.Exact fuseSiluAndMul gateUpFuseMinRows original
        (runViews (forward.views fuseSiluAndMul layers) (fun _ => .clear)).1 ∧
      (¬ forward.AbortsInside fuseSiluAndMul layers → after = fun _ => .clear) ∧
      (forward.AbortsInside fuseSiluAndMul layers →
        ∃ call ∈ groupCalls fuseSiluAndMul forward.inputs 0 layers, call.fused = true ∧
          (after call.group).pending.isSome) := by
  obtain ⟨outputs, wide⟩ := groupCalls_eq packed positive takesHidden fuseSiluAndMul 0 forward.inputs
  have each := fun call member => (wide call member).1
  unfold Forward.views
  cases abort : forward.abort with
  | none =>
    obtain ⟨after, ran, clear, -⟩ := runViews_clear _ each
      ((groupCalls fuseSiluAndMul forward.inputs 0 layers).flatMap GroupCall.views).length
    rw [List.take_length, outputs] at ran
    dsimp only
    rw [ran]
    have inside : ¬ StopsInside (groupCalls fuseSiluAndMul forward.inputs 0 layers)
        ((groupCalls fuseSiluAndMul forward.inputs 0 layers).flatMap GroupCall.views).length := by
      rintro ⟨before, call, rest, listed, -, -, below⟩
      rw [listed, List.flatMap_append, List.flatMap_cons, List.length_append, List.length_append,
        views_length] at below
      omega
    refine ⟨after, rfl, fun _ => rfl, fun _ => clear inside, ?_⟩
    rintro ⟨count, aborted, -⟩
    rw [abort] at aborted
    cases aborted
  | some count =>
    obtain ⟨after, ran, clear, blocked⟩ := runViews_clear _ each count
    dsimp only
    rw [ran]
    have inside : forward.AbortsInside fuseSiluAndMul layers ↔
        StopsInside (groupCalls fuseSiluAndMul forward.inputs 0 layers) count := by
      simp [Forward.AbortsInside, abort]
    refine ⟨after, rfl, ?_, ?_, ?_⟩
    · intro whole
      rw [abort] at whole
      cases whole
    · rw [inside]
      exact clear
    · rw [inside]
      exact blocked

/-- Every forward of a packed model that is not aborted returns what the unpacked projections
return, exactly when no such forward follows one that was aborted inside a group. -/
theorem forwards_exact_iff (model : TargetModel R hidden) (gateUpFuseMinRows : Int)
    (fuseSiluAndMul : Bool) (layers : List (FusedLayer R))
    (packed : fuseLlamaTargetProjections model gateUpFuseMinRows = .ok layers)
    (history : List (Forward R hidden)) :
    List.Forall₂ (Forward.Exact fuseSiluAndMul gateUpFuseMinRows model.layers) history
        (runForwards fuseSiluAndMul layers history (fun _ => .clear)) ↔
      history.Pairwise (fun earlier later =>
        earlier.AbortsInside fuseSiluAndMul layers → later.abort ≠ none) := by
  have related := fuse_forall₂ packed
  have wide := fun inputs => (groupCalls_eq related model.hidden_pos model.takesHidden
    fuseSiluAndMul 0 inputs).2
  induction history with
  | nil => simp [runForwards]
  | cons forward rest ih =>
    obtain ⟨after, left, exact, clear, blocked⟩ := forward_clear related model.hidden_pos
      model.takesHidden fuseSiluAndMul forward
    rw [runForwards, List.forall₂_cons, left, List.pairwise_cons]
    by_cases inside : forward.AbortsInside fuseSiluAndMul layers
    · obtain ⟨call, member, fused, pending⟩ := blocked inside
      have later := forwards_blocked gateUpFuseMinRows model.layers fuseSiluAndMul wide call.group
        (fun inputs => groupCalls_again fuseSiluAndMul forward.inputs inputs 0 layers member fused)
        after pending rest
      rw [later]
      constructor
      · rintro ⟨-, aborted⟩
        exact ⟨fun later member _ => aborted later member,
          List.pairwise_iff_forall_sublist.mpr (fun {_ later} pair _ =>
            aborted later (pair.subset (by simp)))⟩
      · rintro ⟨aborted, -⟩
        exact ⟨exact, fun later member => aborted later member inside⟩
    · rw [clear inside]
      constructor
      · rintro ⟨-, returned⟩
        exact ⟨fun _ _ stops => absurd stops inside, ih.mp returned⟩
      · rintro ⟨-, pairs⟩
        exact ⟨exact, ih.mpr pairs⟩

end layers

/-- One layer whose projections all are the identity on one feature. -/
def unitModel : TargetModel Int 1 where
  layers := [⟨⟨[[1]], 1, none⟩, ⟨[[1]], 1, none⟩, ⟨[[1]], 1, none⟩, ⟨[[1]], 1, none⟩,
    ⟨[[1]], 1, none⟩⟩]
  hidden_pos := Nat.one_pos
  takesHidden := by decide

/-- The packed layers of the model. -/
def unitLayers : List (FusedLayer Int) :=
  [⟨⟨[[1], [1], [1]], [1, 1, 1], 1, 1, some 128⟩, ⟨[[1], [1]], [1, 1], 1, 129, none⟩⟩]

/-- A decode step: one row. -/
def unitRow : Tensor Int 1 := ⟨0, [1], [[7]], rfl, by decide⟩

/-- A forward on that row. -/
def unitForward (abort : Option Nat) : Forward Int 1 := ⟨fun _ => ⟨unitRow, unitRow⟩, abort⟩

/-- An abort after the first projection of a decode step makes the next one raise. -/
theorem next_forward_raises : ¬ List.Forall₂ (Forward.Exact false 129 unitModel.layers)
    [unitForward (some 1), unitForward none]
    (runForwards false unitLayers [unitForward (some 1), unitForward none] (fun _ => .clear)) := by
  have outcomes : runForwards false unitLayers [unitForward (some 1), unitForward none]
      (fun _ => .clear) =
      [.ok [[[7]]], .error "previous fused projection was not fully consumed"] := rfl
  rw [outcomes]
  intro transparent
  cases transparent with
  | cons _ rest =>
    cases rest with
    | cons second _ => exact absurd (second rfl) (by simp)

/-- Two decode steps after an abort between two groups. -/
theorem forwards_exact_iff_unit :
    List.Forall₂ (Forward.Exact false 129 unitModel.layers)
        [unitForward (some 3), unitForward none, unitForward none]
        (runForwards false unitLayers [unitForward (some 3), unitForward none, unitForward none]
          (fun _ => .clear)) ↔
      [unitForward (some 3), unitForward none, unitForward none].Pairwise (fun earlier later =>
        earlier.AbortsInside false unitLayers → later.abort ≠ none) :=
  forwards_exact_iff unitModel 129 false unitLayers rfl
    [unitForward (some 3), unitForward none, unitForward none]

end SpecBlock.Kernels
