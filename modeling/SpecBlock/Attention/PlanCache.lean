import Mathlib.Data.Nat.Init
import Mathlib.Data.Nat.Notation
import SpecBlock.Foundation.Runs
import SpecBlock.Foundation.Stores

/-!
# The cached plan of the tree attention

`flashinfer_tree_attention_forward` keeps two things between calls: the packed mask, under the address
of the mask it was packed from, and the wrapper's last plan, under the shapes and the address of the
packed mask. A layer that finds both does not plan again.

An address does not say what lies there. A mask that is refilled in place, or a new one that gets the
address of one that was freed, is served with the bits of the old one. And a wrapper made for another
device has no plan, whatever the last key says. These are the only ways in which a call attends with
anything but its own mask.
-/

namespace SpecBlock.Attention

open Stores

section packing

/-- `packbits` with `bitorder="little"`: eight flags to a byte, the first in the lowest bit. -/
def packbits (flags : List Bool) : List Nat :=
  (List.range ((flags.length + 7) / 8)).map (fun byte =>
    Nat.ofBits (fun bit : Fin 8 => flags.getD (byte * 8 + bit) false))

/-- The flag a kernel reads from packed bytes. -/
def bitAt (bytes : List Nat) (index : Nat) : Option Bool :=
  bytes[index / 8]?.map (fun byte => byte.testBit (index % 8))

theorem bitAt_packbits (flags : List Bool) {index : Nat} (inside : index < flags.length) :
    bitAt (packbits flags) index = flags[index]? := by
  have listed : index / 8 < (List.range ((flags.length + 7) / 8)).length := by
    rw [List.length_range]
    omega
  have split : index / 8 * 8 + index % 8 = index := Nat.div_add_mod' index 8
  rw [bitAt, packbits, List.getElem?_map, List.getElem?_eq_getElem listed, List.getElem_range]
  simp only [Option.map_some, Nat.testBit_ofBits_lt _ _ (Nat.mod_lt index (by decide : 0 < 8)), split]
  rw [List.getD_eq_getElem?_getD, List.getElem?_eq_getElem inside, Option.getD_some]

end packing

/-- An additive mask in memory: its address, and which of its entries are finite. -/
structure AdditiveMask where
  address : Nat
  finite : Nat → Nat → Bool

/-- A call: the shapes of its tensors, where they are, its mask and its scale. The allocator puts a
mask that is packed in the call at `packedAddress`; a call that reuses the cached one leaves that
address unused. -/
structure AttentionCall (Device Dtype : Type) where
  B : Nat
  Q : Nat
  KV : Nat
  heads : Nat
  kvHeads : Nat
  D : Nat
  device : Device
  qDtype : Dtype
  kvDtype : Dtype
  attentionMask : Option AdditiveMask
  scaling : Option Rat
  packedAddress : Nat

/-- A packed mask in memory. -/
structure PackedMask where
  address : Nat
  bytes : List Nat

/-- `plan_key`: the sizes, the address of the packed mask and the dtype of the queries. Neither the
scale nor the dtype of the keys is part of it. -/
structure PlanKey (Dtype : Type) where
  Q : Nat
  KV : Nat
  heads : Nat
  kvHeads : Nat
  D : Nat
  maskId : Nat
  dtype : Dtype
  deriving DecidableEq

/-- What `plan` was given: the sizes, the bytes of the packed mask, the dtypes and the scale. A later
`run` attends with these, whatever the call that makes it would have given. -/
structure Plan (Dtype : Type) where
  qoLength : Nat
  kvLength : Nat
  heads : Nat
  kvHeads : Nat
  headDim : Nat
  packedMask : Option (List Nat)
  causal : Bool
  qDtype : Dtype
  kvDtype : Dtype
  smScale : Option Rat

/-- A wrapper, made for one device. It has no plan until `plan` is called. -/
structure Wrapper (Device Dtype : Type) where
  device : Device
  plan : Option (Plan Dtype)

/-- The module's globals. The wrapper carries its device, which the module keeps beside it. -/
structure PlanCaches (Device Dtype : Type) where
  wrapper : Option (Wrapper Device Dtype)
  lastPlanKey : Option (PlanKey Dtype)
  cachedPackedMask : Option PackedMask
  cachedMaskSrcId : Option Nat

/-- What a call does: it falls back, it runs a wrapper without a plan, or it attends with a plan. -/
inductive AttentionOutcome (Dtype : Type)
  | sdpa
  | unplanned
  | attends (plan : Plan Dtype)

section forward

variable {Device Dtype : Type} [DecidableEq Device] [DecidableEq Dtype]

/-- The globals when the module is loaded. -/
def PlanCaches.initial : PlanCaches Device Dtype := ⟨none, none, none, none⟩

/-- `reset_plan_cache`: the next call plans again. The packed mask stays under its address. -/
def resetPlanCache (caches : PlanCaches Device Dtype) : PlanCaches Device Dtype :=
  { caches with lastPlanKey := none }

/-- The calls that stay with SDPA. -/
def AttentionCall.fallsBack (threshold : Nat) (call : AttentionCall Device Dtype) : Bool :=
  decide (threshold < call.Q) || call.attentionMask.isNone || decide (call.B ≠ 1)

/-- `_get_wrapper`: the wrapper at hand if it was made for this device, and a new one without a plan
otherwise. -/
def getWrapper (device : Device) (caches : PlanCaches Device Dtype) : Wrapper Device Dtype :=
  match caches.wrapper with
  | some wrapper => if wrapper.device = device then wrapper else ⟨device, none⟩
  | none => ⟨device, none⟩

/-- `bool_mask.reshape(-1)`. -/
def flatMask (Q KV : Nat) (mask : AdditiveMask) : List Bool :=
  (List.range (Q * KV)).map (fun index => mask.finite (index / KV) (index % KV))

/-- The packed mask of a call: the cached one under its own address, or a new one. -/
def packMask (call : AttentionCall Device Dtype) (mask : AdditiveMask)
    (caches : PlanCaches Device Dtype) : Option PackedMask :=
  if caches.cachedMaskSrcId ≠ some mask.address then
    some ⟨call.packedAddress, packbits (flatMask call.Q call.KV mask)⟩
  else caches.cachedPackedMask

/-- `plan_key` of a call. -/
def AttentionCall.planKey (call : AttentionCall Device Dtype) (packed : Option PackedMask) :
    PlanKey Dtype :=
  ⟨call.Q, call.KV, call.heads, call.kvHeads, call.D, packed.elim 0 PackedMask.address, call.qDtype⟩

/-- What a call gives to `plan`. -/
def AttentionCall.plan (call : AttentionCall Device Dtype) (packed : Option PackedMask) : Plan Dtype :=
  ⟨call.Q, call.KV, call.heads, call.kvHeads, call.D, packed.map PackedMask.bytes, packed.isNone,
    call.qDtype, call.kvDtype, call.scaling⟩

/-- `flashinfer_tree_attention_forward`. The mask is packed unless one was packed from this address
before, and the wrapper plans unless the last key is this call's. The key is written even when the
wrapper is new and has no plan. -/
def treeAttentionForward (threshold : Nat) (caches : PlanCaches Device Dtype)
    (call : AttentionCall Device Dtype) : AttentionOutcome Dtype × PlanCaches Device Dtype :=
  match call.attentionMask with
  | none => (.sdpa, caches)
  | some mask =>
    if call.fallsBack threshold then (.sdpa, caches)
    else
      let wrapper := getWrapper call.device caches
      let packed := packMask call mask caches
      let key := call.planKey packed
      let wrapper :=
        if caches.lastPlanKey ≠ some key then { wrapper with plan := some (call.plan packed) }
        else wrapper
      (match wrapper.plan with
        | some plan => .attends plan
        | none => .unplanned,
        { wrapper := some wrapper
          lastPlanKey := some key
          cachedPackedMask := packed
          cachedMaskSrcId := some mask.address })

/-- A column a plan shows to a query. -/
def Plan.visible (plan : Plan Dtype) (query column : Nat) : Option Bool :=
  plan.packedMask.bind (fun bytes => bitAt bytes (query * plan.kvLength + column))

/-- A plan has the sizes and shows the columns of a mask. -/
structure Plan.Shows (plan : Plan Dtype) (Q KV : Nat) (mask : AdditiveMask) : Prop where
  queries : plan.qoLength = Q
  columns : plan.kvLength = KV
  visible : ∀ query < Q, ∀ column < KV, plan.visible query column = some (mask.finite query column)

/-- A call falls back, or attends with its own sizes and its own mask. -/
def AttendsOwn (threshold : Nat) (caches : PlanCaches Device Dtype)
    (call : AttentionCall Device Dtype) : Prop :=
  ∀ mask, call.attentionMask = some mask → call.fallsBack threshold = false →
    ∃ plan, (treeAttentionForward threshold caches call).1 = .attends plan ∧
      plan.Shows call.Q call.KV mask

/-- The caches are current for a call: what was packed from its mask's address shows its mask, and if
the last plan has its key, its device's wrapper has a plan. -/
structure Current (caches : PlanCaches Device Dtype) (call : AttentionCall Device Dtype)
    (mask : AdditiveMask) : Prop where
  packed : caches.cachedMaskSrcId = some mask.address → ∀ packed,
    caches.cachedPackedMask = some packed → ∀ query < call.Q, ∀ column < call.KV,
      bitAt packed.bytes (query * call.KV + column) = some (mask.finite query column)
  planned : caches.cachedMaskSrcId = some mask.address →
    caches.lastPlanKey = some (call.planKey caches.cachedPackedMask) →
      ∃ plan, caches.wrapper = some ⟨call.device, some plan⟩

/-- Calls and resets, one behind the other. A mask is packed while the one packed before it is still
held, so its memory is new. -/
inductive CachesStep (threshold : Nat) : PlanCaches Device Dtype → PlanCaches Device Dtype → Prop
  | call (caches : PlanCaches Device Dtype) (call : AttentionCall Device Dtype)
      (allocated : ∀ packed, caches.cachedPackedMask = some packed →
        packed.address ≠ call.packedAddress) :
      CachesStep threshold caches (treeAttentionForward threshold caches call).2
  | reset (caches : PlanCaches Device Dtype) : CachesStep threshold caches (resetPlanCache caches)

/-- Runs of the module. -/
def planCaches (Device Dtype : Type) [DecidableEq Device] [DecidableEq Dtype] (threshold : Nat) :
    System (PlanCaches Device Dtype) where
  start := fun caches => caches = .initial
  step := CachesStep threshold

/-- What holds between calls: a source has a packed mask, and the last key is that of the last plan,
made with this packed mask. -/
structure CachesInvariant (caches : PlanCaches Device Dtype) : Prop where
  packed : ∀ src, caches.cachedMaskSrcId = some src → ∃ packed, caches.cachedPackedMask = some packed
  planned : ∀ key, caches.lastPlanKey = some key → ∃ packed, caches.cachedPackedMask = some packed ∧
    key.maskId = packed.address ∧ ∀ wrapper plan, caches.wrapper = some wrapper →
      wrapper.plan = some plan →
        plan.qoLength = key.Q ∧ plan.kvLength = key.KV ∧ plan.packedMask = some packed.bytes

section call

variable {threshold : Nat} {caches : PlanCaches Device Dtype} {call : AttentionCall Device Dtype}
  {mask : AdditiveMask}

theorem flatMask_entry (Q KV : Nat) (mask : AdditiveMask) {query column : Nat} (row : query < Q)
    (inside : column < KV) :
    (flatMask Q KV mask)[query * KV + column]? = some (mask.finite query column) := by
  have listed : query * KV + column < (List.range (Q * KV)).length := by
    rw [List.length_range]
    exact address_lt row inside
  rw [flatMask, List.getElem?_map, List.getElem?_eq_getElem listed, List.getElem_range, Option.map_some,
    address_div inside, address_mod inside]

theorem bitAt_mask (Q KV : Nat) (mask : AdditiveMask) {query column : Nat} (row : query < Q)
    (inside : column < KV) : bitAt (packbits (flatMask Q KV mask)) (query * KV + column) =
      some (mask.finite query column) := by
  rw [bitAt_packbits, flatMask_entry Q KV mask row inside]
  rw [flatMask, List.length_map, List.length_range]
  exact address_lt row inside

/-- The wrapper once a call has planned, if it had to. -/
def plannedWrapper (caches : PlanCaches Device Dtype) (call : AttentionCall Device Dtype)
    (packed : Option PackedMask) : Wrapper Device Dtype :=
  if caches.lastPlanKey ≠ some (call.planKey packed) then
    { getWrapper call.device caches with plan := some (call.plan packed) }
  else getWrapper call.device caches

theorem forward_eq (given : call.attentionMask = some mask) (stays : call.fallsBack threshold = false) :
    treeAttentionForward threshold caches call =
      (match (plannedWrapper caches call (packMask call mask caches)).plan with
        | some plan => .attends plan
        | none => .unplanned,
        { wrapper := some (plannedWrapper caches call (packMask call mask caches))
          lastPlanKey := some (call.planKey (packMask call mask caches))
          cachedPackedMask := packMask call mask caches
          cachedMaskSrcId := some mask.address }) := by
  rw [treeAttentionForward, given]
  simp only [stays, Bool.false_eq_true, if_false, plannedWrapper]

theorem forward_fallback (falls : call.fallsBack threshold = true) :
    (treeAttentionForward threshold caches call).2 = caches := by
  rw [treeAttentionForward]
  split
  next => rfl
  next => rw [if_pos falls]

/-- The mask of another address is packed, and then planned with. -/
theorem plannedWrapper_packed (invariant : CachesInvariant caches)
    (allocated : ∀ packed, caches.cachedPackedMask = some packed →
      packed.address ≠ call.packedAddress)
    (bytes : List Nat) : plannedWrapper caches call (some ⟨call.packedAddress, bytes⟩) =
      { getWrapper call.device caches with
        plan := some (call.plan (some ⟨call.packedAddress, bytes⟩)) } := by
  refine if_pos fun same => ?_
  obtain ⟨packed, held, address, -⟩ := invariant.planned _ same
  exact allocated packed held address.symm

omit [DecidableEq Device] [DecidableEq Dtype] in
theorem plan_shows_iff (packed : PackedMask) :
    (call.plan (some packed)).Shows call.Q call.KV mask ↔
      ∀ query < call.Q, ∀ column < call.KV,
        bitAt packed.bytes (query * call.KV + column) = some (mask.finite query column) :=
  ⟨fun shows_ => shows_.visible, fun bits => ⟨rfl, rfl, bits⟩⟩

omit [DecidableEq Device] [DecidableEq Dtype] in
/-- A wrapper that has the last plan shows a mask if the packed bits do. -/
theorem held_shows_iff (invariant : CachesInvariant caches) {packed : PackedMask}
    (held : caches.cachedPackedMask = some packed)
    (same : caches.lastPlanKey = some (call.planKey (some packed))) {wrapper : Wrapper Device Dtype}
    {plan : Plan Dtype} (current : caches.wrapper = some wrapper) (planned : wrapper.plan = some plan) :
    plan.Shows call.Q call.KV mask ↔ ∀ query < call.Q, ∀ column < call.KV,
      bitAt packed.bytes (query * call.KV + column) = some (mask.finite query column) := by
  obtain ⟨packed', held', -, plans⟩ := invariant.planned _ same
  obtain rfl := Option.some.inj (held.symm.trans held')
  obtain ⟨queries, columns, bytes⟩ := plans wrapper plan current planned
  constructor
  · intro shows_ query row column inside
    have shown := shows_.visible query row column inside
    rwa [Plan.visible, bytes, columns] at shown
  · intro bits
    refine ⟨queries, columns, fun query row column inside => ?_⟩
    rw [Plan.visible, bytes, columns]
    exact bits query row column inside

omit [DecidableEq Dtype] in
/-- The wrapper of a device is the last one, or new and without a plan. -/
theorem getWrapper_cases (device : Device) (caches : PlanCaches Device Dtype) :
    (∃ wrapper, caches.wrapper = some wrapper ∧ wrapper.device = device ∧
      getWrapper device caches = wrapper) ∨
    (getWrapper device caches = ⟨device, none⟩ ∧
      ∀ plan, caches.wrapper ≠ some ⟨device, some plan⟩) := by
  rw [getWrapper]
  split
  next wrapper here =>
    by_cases same : wrapper.device = device
    · exact .inl ⟨wrapper, here, same, if_pos same⟩
    · refine .inr ⟨if_neg same, fun plan other => same ?_⟩
      rw [Option.some.inj (here.symm.trans other)]
  next here =>
    refine .inr ⟨rfl, fun plan other => ?_⟩
    rw [here] at other
    cases other

omit [DecidableEq Device] [DecidableEq Dtype] in
/-- Being current under a cached address: the packed bits show the mask, and the last plan is there. -/
theorem current_iff (source : caches.cachedMaskSrcId = some mask.address) {packed : PackedMask}
    (held : caches.cachedPackedMask = some packed) : Current caches call mask ↔
      (∀ query < call.Q, ∀ column < call.KV,
        bitAt packed.bytes (query * call.KV + column) = some (mask.finite query column)) ∧
      (caches.lastPlanKey = some (call.planKey (some packed)) →
        ∃ plan, caches.wrapper = some ⟨call.device, some plan⟩) := by
  constructor
  · intro current
    exact ⟨current.packed source packed held, fun same => current.planned source (held ▸ same)⟩
  · rintro ⟨bits, planned⟩
    refine ⟨fun _ packed' held' => ?_, fun _ same => planned (held ▸ same)⟩
    rwa [← Option.some.inj (held.symm.trans held')]

/-- A call that does not fall back attends with its own sizes and mask if and only if the caches are
current for it. -/
theorem attends_iff (invariant : CachesInvariant caches)
    (allocated : ∀ packed, caches.cachedPackedMask = some packed →
      packed.address ≠ call.packedAddress)
    (given : call.attentionMask = some mask) (stays : call.fallsBack threshold = false) :
    (∃ plan, (treeAttentionForward threshold caches call).1 = .attends plan ∧
      plan.Shows call.Q call.KV mask) ↔ Current caches call mask := by
  rw [forward_eq given stays]
  by_cases source : caches.cachedMaskSrcId = some mask.address
  · obtain ⟨packed, held⟩ := invariant.packed _ source
    have kept : packMask call mask caches = some packed := by
      rw [packMask, if_neg (not_not.mpr source), held]
    rw [kept, current_iff source held]
    by_cases same : caches.lastPlanKey = some (call.planKey (some packed))
    · rw [plannedWrapper, if_neg (not_not.mpr same)]
      rcases getWrapper_cases call.device caches with ⟨wrapper, here, device, last⟩ | ⟨new, bare⟩
      · rw [last]
        cases planned : wrapper.plan with
        | none =>
          refine ⟨fun ⟨_, ran, _⟩ => by simp at ran, fun ⟨_, someday⟩ => ?_⟩
          obtain ⟨plan, other⟩ := someday same
          rw [Option.some.inj (here.symm.trans other)] at planned
          cases planned
        | some plan =>
          have whole : wrapper = ⟨call.device, some plan⟩ := by rw [← device, ← planned]
          have bits := @held_shows_iff Device Dtype caches call mask invariant packed held same wrapper plan here planned
          constructor
          · rintro ⟨_, ran, shown⟩
            obtain rfl := AttentionOutcome.attends.inj ran
            exact ⟨bits.mp shown, fun _ => ⟨plan, whole ▸ here⟩⟩
          · exact fun ⟨shown, _⟩ => ⟨plan, rfl, bits.mpr shown⟩
      · rw [new]
        refine ⟨fun ⟨_, ran, _⟩ => by simp at ran, fun ⟨_, someday⟩ => ?_⟩
        obtain ⟨plan, other⟩ := someday same
        exact absurd other (bare plan)
    · rw [plannedWrapper, if_pos same]
      constructor
      · rintro ⟨_, ran, shown⟩
        obtain rfl := AttentionOutcome.attends.inj ran
        exact ⟨(plan_shows_iff packed).mp shown, fun here => absurd here same⟩
      · exact fun ⟨shown, _⟩ => ⟨_, rfl, (plan_shows_iff packed).mpr shown⟩
  · rw [packMask, if_pos source, plannedWrapper_packed invariant allocated]
    constructor
    · exact fun _ => ⟨fun here => absurd here source, fun here => absurd here source⟩
    · refine fun _ => ⟨_, rfl, (plan_shows_iff _).mpr fun query row column inside => ?_⟩
      exact bitAt_mask call.Q call.KV mask row inside

theorem forward_invariant (invariant : CachesInvariant caches)
    (allocated : ∀ packed, caches.cachedPackedMask = some packed →
      packed.address ≠ call.packedAddress) :
    CachesInvariant (treeAttentionForward threshold caches call).2 := by
  cases stays : call.fallsBack threshold with
  | true => rwa [forward_fallback stays]
  | false =>
    obtain ⟨mask, given⟩ : ∃ mask, call.attentionMask = some mask := by
      rw [AttentionCall.fallsBack, Bool.or_eq_false_iff, Bool.or_eq_false_iff] at stays
      exact Option.ne_none_iff_exists'.mp fun missing => by simp [missing] at stays
    rw [forward_eq given stays]
    by_cases source : caches.cachedMaskSrcId = some mask.address
    · obtain ⟨packed, held⟩ := invariant.packed _ source
      have kept : packMask call mask caches = some packed := by
        rw [packMask, if_neg (not_not.mpr source), held]
      rw [kept]
      refine ⟨fun _ _ => ⟨packed, rfl⟩, ?_⟩
      rintro _ ⟨⟩
      refine ⟨packed, rfl, rfl, ?_⟩
      rintro _ plan ⟨⟩ planned
      by_cases same : caches.lastPlanKey = some (call.planKey (some packed))
      · rw [plannedWrapper, if_neg (not_not.mpr same)] at planned
        rcases getWrapper_cases call.device caches with ⟨wrapper, here, -, last⟩ | ⟨new, -⟩
        · obtain ⟨packed', held', -, plans⟩ := invariant.planned _ same
          obtain rfl := Option.some.inj (held.symm.trans held')
          exact plans wrapper plan here (last ▸ planned)
        · rw [new] at planned
          cases planned
      · rw [plannedWrapper, if_pos same] at planned
        obtain rfl := Option.some.inj planned
        exact ⟨rfl, rfl, rfl⟩
    · rw [packMask, if_pos source, plannedWrapper_packed invariant allocated]
      refine ⟨fun _ _ => ⟨_, rfl⟩, ?_⟩
      rintro _ ⟨⟩
      refine ⟨_, rfl, rfl, ?_⟩
      rintro _ plan ⟨⟩ planned
      obtain rfl := Option.some.inj planned
      exact ⟨rfl, rfl, rfl⟩

end call

theorem planCaches_invariant {threshold : Nat} {caches : PlanCaches Device Dtype}
    (reached : (planCaches Device Dtype threshold).Reachable caches) : CachesInvariant caches := by
  refine reached.invariant CachesInvariant ?_ ?_
  · rintro _ rfl
    exact ⟨nofun, nofun⟩
  · rintro before after invariant taken
    cases taken with
    | call call allocated => exact forward_invariant invariant allocated
    | reset => exact ⟨invariant.packed, nofun⟩

/-- After any run of calls and resets, a call attends with its own sizes and the columns of its own
mask if and only if the caches are current for it. -/
theorem plan_caches_current (threshold : Nat) (caches : PlanCaches Device Dtype)
    (reached : (planCaches Device Dtype threshold).Reachable caches)
    (call : AttentionCall Device Dtype)
    (allocated : ∀ packed, caches.cachedPackedMask = some packed →
      packed.address ≠ call.packedAddress) :
    AttendsOwn threshold caches call ↔ ∀ mask, call.attentionMask = some mask →
      call.fallsBack threshold = false → Current caches call mask := by
  have invariant := planCaches_invariant reached
  constructor
  · exact fun own mask given stays =>
      (attends_iff invariant allocated given stays).mp (own mask given stays)
  · exact fun current mask given stays =>
      (attends_iff invariant allocated given stays).mpr (current mask given stays)

end forward

/-- A verify call of two nodes over three columns: its mask lies at `source`, and what it packs would
lie at `packed`. -/
def verifyCall (source packed : Nat) (finite : Nat → Nat → Bool) : AttentionCall Unit Unit :=
  ⟨1, 2, 3, 4, 2, 64, (), (), (), some ⟨source, finite⟩, none, packed⟩

/-- A causal mask over the columns. -/
def causalColumns (query column : Nat) : Bool := decide (column ≤ query + 1)

/-- After the first layer of a forward the second one, with the same mask, reuses packed bits and plan,
and a call with another mask at another address packs and plans again: both attend with their own. -/
theorem plan_caches_current_later :
    let after := (treeAttentionForward 200 .initial (verifyCall 4096 8192 causalColumns)).2
    AttendsOwn 200 after (verifyCall 4096 12288 causalColumns) ∧
      AttendsOwn 200 after (verifyCall 16384 12288 fun _ _ => true) := by
  intro after
  have reached : (planCaches Unit Unit 200).Reachable after :=
    .step _ _ (.start _ rfl) (.call _ _ nofun)
  have fresh : ∀ packed, after.cachedPackedMask = some packed → packed.address ≠ 12288 := by
    rintro _ ⟨⟩
    decide
  constructor
  · refine (plan_caches_current 200 after reached (verifyCall 4096 12288 causalColumns) fresh).mpr ?_
    rintro _ ⟨⟩ -
    refine ⟨fun _ => ?_, fun _ _ => ⟨_, rfl⟩⟩
    rintro _ ⟨⟩
    decide
  · refine (plan_caches_current 200 after reached (verifyCall 16384 12288 fun _ _ => true) fresh).mpr ?_
    rintro _ ⟨⟩ -
    exact ⟨nofun, nofun⟩

/-- A mask refilled in place, or another one at its address, is served with the old bits, also when
the allocator would put newly packed bits elsewhere. -/
theorem plan_caches_refilled :
    let after := (treeAttentionForward 200 .initial (verifyCall 4096 8192 fun _ _ => true)).2
    let second := verifyCall 4096 12288 causalColumns
    (planCaches Unit Unit 200).Reachable after ∧
      (∀ packed, after.cachedPackedMask = some packed → packed.address ≠ second.packedAddress) ∧
      ¬ AttendsOwn 200 after second := by
  intro after second
  refine ⟨.step _ _ (.start _ rfl) (.call _ _ nofun), ?_, fun own => ?_⟩
  · rintro _ ⟨⟩
    decide
  obtain ⟨plan, ran, shown⟩ := own _ rfl rfl
  obtain rfl := AttentionOutcome.attends.inj ran
  have entry := shown.visible 0 (by decide) 2 (by decide)
  revert entry
  decide

end SpecBlock.Attention
