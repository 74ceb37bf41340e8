import Mathlib.Algebra.Order.Monoid.Unbundled.WithTop
import SpecBlock.Serving.FixedFinaliser

/-!
# What the finalisers of fixed width store

The kept nodes with their flags make a packed tree: a node in use has the root as its parent when
its raw parent is negative, and otherwise the node whose raw index is the raw parent. That node
exists when the nodes in use are closed under raw parents, and it is only one since the raw indices
ascend.

A walk up the raw parents visits the raw indices of the ancestors in the packed tree, so it counts
their number and meets a key exactly when the key is one of them. Both finalisers are shown to
store what the packed tree says in every cell.
-/

namespace SpecBlock.Serving
open ChildSibling Stores ParentChain

/-- Steps from a raw node up to the root. -/
inductive RawDepth (raw : Nat → Int) : Nat → Nat → Prop where
  | top {node : Nat} (above : raw node < 0) : RawDepth raw node 1
  | child {node up depth : Nat} (above : raw node = up) (rest : RawDepth raw up depth) :
      RawDepth raw node (depth + 1)

/-- A row of raw nodes with the nodes kept of it. -/
structure KeptRow where
  raw : Nat → Int
  kept : Nat → Nat
  valid : Nat → Bool
  budget : Nat

namespace KeptRow

variable (row : KeptRow)

/-- The parents come before their children in a row that is not too deep, the kept indices ascend,
and the raw parent of a node in use is in use. -/
structure Closed (size maxDepth : Nat) : Prop where
  ordered : ∀ node < size, row.raw node < node
  shallow : ∀ node < size, ∀ depth, RawDepth row.raw node depth → depth ≤ maxDepth
  ascending : ∀ first second, first < second → second < row.budget → row.kept first < row.kept second
  inside : ∀ place < row.budget, row.valid place = true → row.kept place < size
  closed : ∀ place < row.budget, row.valid place = true → 0 ≤ row.raw (row.kept place) →
    ∃ other < row.budget, row.valid other = true ∧ (row.kept other : Int) = row.raw (row.kept place)

/-- The root and the nodes with a flag are in use. -/
def InUse (node : Nat) : Prop := node = 0 ∨ node - 1 < row.budget ∧ row.valid (node - 1) = true

instance (node : Nat) : Decidable (row.InUse node) :=
  inferInstanceAs (Decidable (_ ∨ _))

/-- What is written for a node: for the root a value of its own, for a node in use that of its raw node, and
for any other node the default. -/
def written {A : Type} (root : A) (value : Nat → A) (default : A) : Nat → A
  | 0 => root
  | place + 1 => if row.valid place then value (row.kept place) else default

/-- The parent of a node of the packed tree. -/
def parent (node : Nat) : Option Nat :=
  if 0 < node ∧ node - 1 < row.budget ∧ row.valid (node - 1) = true then
    if row.raw (row.kept (node - 1)) < 0 then some 0
    else ((List.range row.budget).find? (fun place => decide (row.valid place = true ∧
      (row.kept place : Int) = row.raw (row.kept (node - 1))))).map (· + 1)
  else none

variable {row} {size maxDepth : Nat} (closed : row.Closed size maxDepth)

include closed

theorem Closed.kept_inj {first second : Nat} (firstInside : first < row.budget)
    (secondInside : second < row.budget) (same : row.kept first = row.kept second) :
    first = second := by
  rcases Nat.lt_trichotomy first second with before | equal | behind
  · have lower := closed.ascending first second before secondInside
    omega
  · exact equal
  · have lower := closed.ascending second first behind firstInside
    omega

omit closed in
theorem parent_top {place : Nat} (inside : place < row.budget) (used : row.valid place = true)
    (top : row.raw (row.kept place) < 0) : row.parent (place + 1) = some 0 := by
  simp [parent, inside, used, top]

/-- Any other node in use is below the node of its raw parent. -/
theorem Closed.parent_node {place above : Nat} (inside : place < row.budget)
    (used : row.valid place = true) (aboveInside : above < row.budget)
    (aboveUsed : row.valid above = true) (link : (row.kept above : Int) = row.raw (row.kept place)) :
    row.parent (place + 1) = some (above + 1) := by
  have notTop : ¬ row.raw (row.kept place) < 0 := by omega
  have found : (List.range row.budget).find? (fun other => decide (row.valid other = true ∧
      (row.kept other : Int) = row.raw (row.kept place))) = some above := by
    rw [List.find?_range_eq_some]
    refine ⟨decide_eq_true ⟨aboveUsed, link⟩, List.mem_range.mpr aboveInside, ?_⟩
    intro other before
    have apart : row.kept other ≠ row.kept above := by
      have lower := closed.ascending other above before aboveInside
      omega
    simp only [Bool.not_eq_true', decide_eq_false_iff_not, not_and]
    intro _ same
    exact apart (by omega)
  rw [parent, if_pos ⟨Nat.succ_pos _, inside, used⟩, Nat.add_sub_cancel, if_neg notTop, found]
  rfl

theorem Closed.parent_used {place : Nat} (inside : place < row.budget)
    (used : row.valid place = true) :
    (row.raw (row.kept place) < 0 ∧ row.parent (place + 1) = some 0) ∨
      ∃ above < place, row.valid above = true ∧ (row.kept above : Int) = row.raw (row.kept place) ∧
        row.parent (place + 1) = some (above + 1) := by
  by_cases top : row.raw (row.kept place) < 0
  · exact .inl ⟨top, parent_top inside used top⟩
  · obtain ⟨above, aboveInside, aboveUsed, link⟩ := closed.closed place inside used (by omega)
    have lower := closed.ordered _ (closed.inside place inside used)
    have before : above < place := by
      by_contra behind
      rcases Nat.lt_or_eq_of_le (Nat.le_of_not_lt behind) with later | same
      · have higher := closed.ascending place above later aboveInside
        omega
      · subst same
        omega
    exact .inr ⟨above, before, aboveUsed, link,
      closed.parent_node inside used aboveInside aboveUsed link⟩

omit closed in
theorem parent_place {node above : Nat} (link : row.parent node = some above) :
    ∃ place < row.budget, node = place + 1 ∧ row.valid place = true := by
  unfold parent at link
  split at link
  · rename_i used
    exact ⟨node - 1, used.2.1, by omega, used.2.2⟩
  · exact absurd link (by simp)

theorem Closed.parent_lt {node above : Nat} (link : row.parent node = some above) : above < node := by
  obtain ⟨place, inside, rfl, used⟩ := parent_place link
  rcases closed.parent_used inside used with ⟨-, top⟩ | ⟨other, before, -, -, found⟩
  · rw [top] at link
    obtain rfl := Option.some.inj link
    omega
  · rw [found] at link
    obtain rfl := Option.some.inj link
    omega

omit closed in
theorem rooted : Rooted (Under row.parent) 0 where
  single := fun _ _ _ link other => Option.some.inj (link.symm.trans other)
  top := by
    intro above link
    obtain ⟨place, -, impossible, -⟩ := parent_place link
    omega

theorem Closed.exists_path (node : Nat) (used : row.InUse node) :
    ∃ path, RootPath (Under row.parent) 0 node path := by
  induction node using Nat.strongRecOn with
  | ind node ih =>
    by_cases isRoot : node = 0
    · subst isRoot
      exact ⟨_, .root⟩
    · obtain ⟨inside, valid⟩ := used.resolve_left isRoot
      obtain ⟨place, rfl⟩ : ∃ place, node = place + 1 := ⟨node - 1, by omega⟩
      rcases closed.parent_used inside valid with ⟨-, link⟩ | ⟨above, before, aboveUsed, -, link⟩
      · exact ⟨_, .child link .root⟩
      · rw [Nat.add_sub_cancel] at inside
        obtain ⟨path, rest⟩ := ih (above + 1) (by omega)
          (.inr ⟨show above < row.budget by omega, aboveUsed⟩)
        exact ⟨_, .child link rest⟩

/-- The path of a packed node is as long as the way up from its raw node. -/
theorem Closed.rawDepth {node : Nat} {path : List Nat}
    (rooted : RootPath (Under row.parent) 0 node path) (proper : node ≠ 0) :
    RawDepth row.raw (row.kept (node - 1)) (path.length - 1) := by
  induction rooted with
  | root => exact absurd rfl proper
  | @child node above path link rest ih =>
    obtain ⟨place, inside, rfl, used⟩ := parent_place link
    have positive := rest.length_pos
    have longer : (path ++ [place + 1]).length - 1 = path.length - 1 + 1 := by
      rw [List.length_append, List.length_singleton]
      omega
    rw [longer, Nat.add_sub_cancel]
    rcases closed.parent_used inside used with ⟨top, found⟩ | ⟨other, -, -, up, found⟩
    · obtain rfl : above = 0 := Option.some.inj (link.symm.trans found)
      have single : path = [0] := RootPath.unique KeptRow.rooted rest .root
      subst single
      exact .top top
    · obtain rfl : above = other + 1 := Option.some.inj (link.symm.trans found)
      exact .child up.symm (ih (Nat.succ_ne_zero _))

theorem Closed.path_short {node : Nat} {path : List Nat}
    (rooted : RootPath (Under row.parent) 0 node path) : path.length ≤ maxDepth + 1 := by
  by_cases isRoot : node = 0
  · subst isRoot
    have single : path = [0] := RootPath.unique KeptRow.rooted rooted .root
    simp [single]
  · have used : node - 1 < row.budget ∧ row.valid (node - 1) = true := by
      cases rooted with
      | root => exact absurd rfl isRoot
      | child link rest =>
        obtain ⟨place, inside, rfl, valid⟩ := parent_place link
        exact ⟨inside, valid⟩
    have bound := closed.shallow _ (closed.inside _ used.1 used.2) _ (closed.rawDepth rooted isRoot)
    omega

/-! ## The walks -/

section walks

variable {rawParents : Nat → Int} {start : Nat}

omit closed in
theorem depthWalk_over (turns cur count : Nat) :
    ((DepthWalk.turn rawParents start)^[turns] ⟨cur, false, count⟩).depth = count := by
  induction turns with
  | zero => rfl
  | succ turns ih =>
    rw [Function.iterate_succ_apply]
    exact ih

omit closed in
theorem maskWalk_over (sees : Nat → Bool) (turns cur : Nat) (visible : Bool) :
    ((MaskWalk.turn rawParents start sees)^[turns] ⟨visible, cur, false⟩).visible = visible := by
  induction turns with
  | zero => rfl
  | succ turns ih =>
    rw [Function.iterate_succ_apply]
    have still : MaskWalk.turn rawParents start sees ⟨visible, cur, false⟩ = ⟨visible, cur, false⟩ := by
      simp [MaskWalk.turn]
    rw [still]
    exact ih

variable (stored : ∀ node, rawParents (start + node) = row.raw node)

include stored

theorem Closed.depthWalk_path {node : Nat} {path : List Nat}
    (rooted : RootPath (Under row.parent) 0 node path) (proper : node ≠ 0) (turns count : Nat)
    (enough : path.length ≤ turns + 1) :
    ((DepthWalk.turn rawParents start)^[turns] ⟨row.kept (node - 1), true, count⟩).depth + 1 =
      count + path.length := by
  induction rooted generalizing turns count with
  | root => exact absurd rfl proper
  | @child node above path link rest ih =>
    obtain ⟨place, inside, rfl, used⟩ := parent_place link
    have positive := rest.length_pos
    rw [List.length_append, List.length_singleton] at enough ⊢
    obtain ⟨turns, rfl⟩ : ∃ fewer, turns = fewer + 1 := ⟨turns - 1, by omega⟩
    rw [Function.iterate_succ_apply, Nat.add_sub_cancel]
    rcases closed.parent_used inside used with ⟨top, found⟩ | ⟨other, -, -, up, found⟩
    · obtain rfl : above = 0 := Option.some.inj (link.symm.trans found)
      have single : path = [0] := RootPath.unique KeptRow.rooted rest .root
      have turned : DepthWalk.turn rawParents start ⟨row.kept place, true, count⟩ =
          ⟨row.kept place, false, count + 1⟩ := by
        simp [DepthWalk.turn, load, stored, Int.not_le.mpr top]
      rw [turned, depthWalk_over, single]
      simp
    · obtain rfl : above = other + 1 := Option.some.inj (link.symm.trans found)
      have turned : DepthWalk.turn rawParents start ⟨row.kept place, true, count⟩ =
          ⟨row.kept other, true, count + 1⟩ := by
        simp [DepthWalk.turn, load, stored, ← up]
      have further := ih (Nat.succ_ne_zero _) turns (count + 1) (by omega)
      rw [Nat.add_sub_cancel] at further
      rw [turned, further]
      omega

/-- The walk sees a key that is a raw index of the path behind the root, and no other. -/
theorem Closed.maskWalk_path (sees : Nat → Bool) {node : Nat} {path : List Nat}
    (rooted : RootPath (Under row.parent) 0 node path) (proper : node ≠ 0) (turns : Nat)
    (visible : Bool) (enough : path.length ≤ turns + 1) :
    ((MaskWalk.turn rawParents start sees)^[turns] ⟨visible, row.kept (node - 1), true⟩).visible = true ↔
      visible = true ∨ ∃ other ∈ path, other ≠ 0 ∧ sees (row.kept (other - 1)) = true := by
  induction rooted generalizing turns visible with
  | root => exact absurd rfl proper
  | @child node above path link rest ih =>
    obtain ⟨place, inside, rfl, used⟩ := parent_place link
    have positive := rest.length_pos
    rw [List.length_append, List.length_singleton] at enough
    obtain ⟨turns, rfl⟩ : ∃ fewer, turns = fewer + 1 := ⟨turns - 1, by omega⟩
    have last : (∃ other ∈ path ++ [place + 1], other ≠ 0 ∧ sees (row.kept (other - 1)) = true) ↔
        sees (row.kept place) = true ∨ ∃ other ∈ path, other ≠ 0 ∧ sees (row.kept (other - 1)) = true := by
      simp only [List.mem_append, List.mem_singleton, or_and_right, exists_or, exists_eq_left,
        Nat.add_sub_cancel, ne_eq, Nat.succ_ne_zero, not_false_eq_true, true_and]
      exact or_comm
    rw [Function.iterate_succ_apply, Nat.add_sub_cancel, last]
    rcases closed.parent_used inside used with ⟨top, found⟩ | ⟨other, -, -, up, found⟩
    · obtain rfl : above = 0 := Option.some.inj (link.symm.trans found)
      have single : path = [0] := RootPath.unique KeptRow.rooted rest .root
      have turned : MaskWalk.turn rawParents start sees ⟨visible, row.kept place, true⟩ =
          ⟨visible || sees (row.kept place), row.kept place, false⟩ := by
        simp [MaskWalk.turn, load, stored, Int.not_le.mpr top]
      rw [turned, maskWalk_over, single]
      simp
    · obtain rfl : above = other + 1 := Option.some.inj (link.symm.trans found)
      have turned : MaskWalk.turn rawParents start sees ⟨visible, row.kept place, true⟩ =
          ⟨visible || sees (row.kept place), row.kept other, true⟩ := by
        simp [MaskWalk.turn, load, stored, ← up]
      have further := ih (Nat.succ_ne_zero _) turns
        (visible || sees (row.kept place)) (by omega)
      rw [Nat.add_sub_cancel] at further
      rw [turned, further, Bool.or_eq_true, or_assoc]

end walks

end KeptRow

/-! ## The cells -/

/-- The maximum of masked lanes is the lane of the mask when there is one. -/
theorem laneMax_only (lanes : Nat) (mask : Nat → Prop) [DecidablePred mask] (only : Nat)
    (inside : only < lanes) (masked : mask only) (unique : ∀ lane < lanes, mask lane → lane = only) :
    laneMax lanes (fun lane => if mask lane then (lane : Int) else -1) = only := by
  have bounded : ∀ (values : List Int) (start : Int),
      (∀ value ∈ start :: values, value ≤ values.foldl max start) ∧
        values.foldl max start ∈ start :: values := by
    intro values
    induction values with
    | nil => simp
    | cons value values ih =>
      intro start
      obtain ⟨greatest, member⟩ := ih (max start value)
      have bound := greatest _ List.mem_cons_self
      rw [List.foldl_cons]
      refine ⟨?_, ?_⟩
      · intro other listed
        rcases List.mem_cons.mp listed with rfl | listed
        · omega
        · rcases List.mem_cons.mp listed with rfl | listed
          · omega
          · exact greatest other (List.mem_cons_of_mem _ listed)
      · rcases List.mem_cons.mp member with same | listed
        · rw [same]
          rcases Int.le_total start value with here | here
          · simp [Int.max_eq_right here]
          · simp [Int.max_eq_left here]
        · exact List.mem_cons_of_mem _ (List.mem_cons_of_mem _ listed)
  obtain ⟨greatest, member⟩ := bounded
    ((List.range lanes).map (fun lane => if mask lane then (lane : Int) else -1))
    (if mask 0 then ((0 : Nat) : Int) else -1)
  have own := greatest (if mask only then (only : Int) else -1)
    (List.mem_cons_of_mem _ (List.mem_map_of_mem (List.mem_range.mpr inside)))
  rw [if_pos masked] at own
  obtain ⟨lane, laneInside, value⟩ : ∃ lane < lanes,
      laneMax lanes (fun lane => if mask lane then (lane : Int) else -1) =
        if mask lane then (lane : Int) else -1 := by
    rcases List.mem_cons.mp member with first | listed
    · exact ⟨0, by omega, first⟩
    · obtain ⟨lane, laneInside, value⟩ := List.mem_map.mp listed
      exact ⟨lane, List.mem_range.mp laneInside, value.symm⟩
  by_cases chosen : mask lane
  · rw [if_pos chosen, unique lane laneInside chosen] at value
    exact value
  · rw [if_neg chosen] at value
    rw [laneMax] at value
    omega

/-- Trying the lanes one after the other ends with the lane of the mask when there is one. -/
theorem foldl_only (lanes : Nat) (mask : Nat → Prop) [DecidablePred mask] (only : Nat)
    (inside : only < lanes) (masked : mask only) (unique : ∀ lane < lanes, mask lane → lane = only) :
    (List.range lanes).foldl (fun (chosen : Int) lane => if mask lane then (lane : Int) else chosen)
      (-1) = only := by
  have soFar : ∀ count ≤ lanes, (List.range count).foldl
      (fun (chosen : Int) lane => if mask lane then (lane : Int) else chosen) (-1) =
        if only < count then (only : Int) else -1 := by
    intro count within
    induction count with
    | zero => rfl
    | succ count ih =>
      rw [List.range_succ, List.foldl_append, ih (by omega), List.foldl_cons,
        List.foldl_nil]
      by_cases here : count = only
      · subst here
        simp [masked]
      · have other : ¬ mask count := fun chosen => here (unique count (by omega) chosen)
        rw [if_neg other]
        by_cases before : only < count
        · rw [if_pos before, if_pos (by omega)]
        · rw [if_neg before, if_neg (by omega)]
  rw [soFar lanes (Nat.le_refl _), if_pos inside]

/-- The row a finaliser reads for a request. -/
def FinaliseMemory.row {L : Type} (memory : FinaliseMemory L) (shape : FinaliseShape) (b : Nat) :
    KeptRow where
  raw := fun node => memory.rawParents (b * shape.strideRaw + node)
  kept := fun place => memory.keptIdx (b * shape.strideKept + place)
  valid := fun place => memory.keptValid (b * shape.strideKept + place)
  budget := shape.budget

/-- What is stored as the parent of a node: the root is not counted, and a node not in use has minus
two. -/
def KeptRow.parentOut (row : KeptRow) (node : Nat) : Int :=
  if node = 0 then -1 else (row.parent node).elim (-2) (fun above => (above : Int) - 1)

namespace FinaliseMemory

variable {L : Type} {memory : FinaliseMemory L} {shape : FinaliseShape} {b size lane : Nat}
variable (width : shape.N = shape.budget + 1)

include width

theorem kept_place {place : Nat} (inside : place < shape.budget) :
    memory.kept shape b (place + 1) = (memory.row shape b).kept place := by
  simp [kept, isNonroot, load, width, inside, row]

theorem keep_place {place : Nat} (inside : place < shape.budget) :
    memory.keep shape b (place + 1) = (memory.row shape b).valid place := by
  simp [keep, isNonroot, load, width, inside, row]

theorem validNonroot_place {place : Nat} (inside : place < shape.budget) :
    memory.validNonroot shape b (place + 1) = (memory.row shape b).valid place := by
  rw [validNonroot, keep_place width inside]
  simp [isNonroot, width, inside]

omit width in
theorem validNonroot_root : memory.validNonroot shape b 0 = false := by
  simp [validNonroot, isNonroot]

theorem token_eq {lane : Nat} (inside : lane < shape.N) : memory.token shape b lane =
    (memory.row shape b).written (memory.sampleTokens b)
      (fun raw => memory.rawTokens (b * shape.strideRaw + raw)) 0 lane := by
  cases lane with
  | zero => rfl
  | succ place =>
    have placeInside : place < shape.budget := by omega
    rw [token, if_neg (Nat.succ_ne_zero _), load, validNonroot_place width placeInside,
      kept_place width placeInside, KeptRow.written]

theorem lp_eq [Zero L] [Bot L] {lane : Nat} (inside : lane < shape.N) : memory.lp shape b lane =
    (memory.row shape b).written 0 (fun raw => memory.rawLps (b * shape.strideRaw + raw)) ⊥ lane := by
  cases lane with
  | zero => rfl
  | succ place =>
    have placeInside : place < shape.budget := by omega
    rw [lp, if_neg (Nat.succ_ne_zero _), load, validNonroot_place width placeInside,
      kept_place width placeInside, KeptRow.written]

theorem oldParent_place {place : Nat} (inside : place < shape.budget)
    (used : (memory.row shape b).valid place = true) :
    memory.oldParent shape b (place + 1) =
      (memory.row shape b).raw ((memory.row shape b).kept place) := by
  rw [oldParent, kept_place width inside, validNonroot_place width inside, used]
  rfl

variable (closed : (memory.row shape b).Closed size shape.maxDepth)

include closed

/-- Matching every node with every kept node finds the parent. -/
theorem mappedParent_place {place above : Nat} (block : shape.N ≤ shape.blockN)
    (inside : place < shape.budget) (used : (memory.row shape b).valid place = true)
    (before : above < place) (aboveUsed : (memory.row shape b).valid above = true)
    (link : ((memory.row shape b).kept above : Int) =
      (memory.row shape b).raw ((memory.row shape b).kept place)) :
    memory.mappedParent shape b (place + 1) = above := by
  rw [mappedParent]
  refine laneMax_only shape.blockN _ above (by omega) ?_ ?_
  · rw [oldParent_place width inside used, validNonroot_place width inside, ← link]
    have aboveInside : above < shape.budget := by omega
    simp only [candOld, candKeep, load, aboveInside, decide_true, if_true]
    exact ⟨rfl, aboveUsed, used⟩
  · rintro cand - ⟨same, flagged, -⟩
    by_cases candInside : cand < shape.budget
    · rw [oldParent_place width inside used, ← link] at same
      simp only [candOld, load, candInside, decide_true, if_true] at same
      have aboveInside : above < shape.budget := by omega
      exact closed.kept_inj candInside aboveInside (by exact_mod_cast same.symm)
    · simp [candKeep, load, candInside] at flagged

/-- Trying the kept nodes one after the other finds the parent. -/
theorem packedMappedParent_place {place above : Nat} (inside : place < shape.budget)
    (used : (memory.row shape b).valid place = true) (before : above < place)
    (aboveUsed : (memory.row shape b).valid above = true)
    (link : ((memory.row shape b).kept above : Int) =
      (memory.row shape b).raw ((memory.row shape b).kept place)) :
    memory.packedMappedParent shape b (place + 1) = above := by
  have aboveInside : above < shape.budget := by omega
  rw [packedMappedParent]
  refine foldl_only shape.budget _ above aboveInside ?_ ?_
  · rw [oldParent_place width inside used, validNonroot_place width inside, ← link]
    exact ⟨used, by omega, aboveUsed, rfl⟩
  · rintro cand candInside ⟨-, -, -, same⟩
    rw [oldParent_place width inside used, ← link] at same
    exact closed.kept_inj candInside aboveInside (by exact_mod_cast same.symm)

theorem parentOut_eq (block : shape.N ≤ shape.blockN) (inside : lane < shape.N) :
    memory.rawParentOut shape b lane = (memory.row shape b).parentOut lane ∧
      memory.packedParentOut shape b lane = (memory.row shape b).parentOut lane := by
  cases lane with
  | zero => exact ⟨rfl, rfl⟩
  | succ place =>
    have placeInside : place < shape.budget := by omega
    have proper : place + 1 ≠ 0 := Nat.succ_ne_zero place
    rw [rawParentOut, packedParentOut, if_neg proper, if_neg proper, keep_place width placeInside,
      validNonroot_place width placeInside, KeptRow.parentOut, if_neg proper]
    cases used : (memory.row shape b).valid place with
    | false =>
      have bare : (memory.row shape b).parent (place + 1) = none := by
        cases found : (memory.row shape b).parent (place + 1) with
        | none => rfl
        | some above =>
          obtain ⟨other, -, same, valid⟩ := KeptRow.parent_place found
          obtain rfl : place = other := by omega
          rw [used] at valid
          exact absurd valid (by decide)
      rw [bare]
      exact ⟨rfl, rfl⟩
    | true =>
      rw [if_pos rfl, if_pos rfl, oldParent_place width placeInside used]
      rcases closed.parent_used placeInside used with ⟨top, found⟩ | ⟨above, before, valid, link, found⟩
      · rw [found, if_neg (by omega), if_neg (by omega)]
        exact ⟨rfl, rfl⟩
      · rw [found, if_pos (by omega), if_pos (by omega),
          mappedParent_place width closed block placeInside used before valid link,
          packedMappedParent_place width closed placeInside used before valid link]
        simp

omit closed in
/-- A lane is active exactly for the nodes that have a parent. -/
theorem validNonroot_iff (inside : lane < shape.N) :
    memory.validNonroot shape b lane = true ↔ lane ≠ 0 ∧ (memory.row shape b).InUse lane := by
  cases lane with
  | zero => simp [validNonroot_root]
  | succ place =>
    have placeInside : place < shape.budget := by omega
    have budget : place < (memory.row shape b).budget := placeInside
    rw [validNonroot_place width placeInside]
    simp [KeptRow.InUse, budget]

/-- A node that is not the root has a parent exactly when it is in use. -/
theorem parent_iff (inside : lane < shape.N) :
    (memory.row shape b).parent lane ≠ none ↔ memory.validNonroot shape b lane = true := by
  rw [validNonroot_iff width inside]
  constructor
  · intro found
    obtain ⟨above, link⟩ := Option.ne_none_iff_exists'.mp found
    obtain ⟨place, placeInside, rfl, used⟩ := KeptRow.parent_place link
    exact ⟨Nat.succ_ne_zero _, .inr ⟨placeInside, used⟩⟩
  · rintro ⟨proper, used⟩
    obtain ⟨placeInside, valid⟩ := used.resolve_left proper
    obtain ⟨place, rfl⟩ : ∃ place, lane = place + 1 := ⟨lane - 1, by omega⟩
    rw [Nat.add_sub_cancel] at placeInside valid
    rcases closed.parent_used placeInside valid with ⟨-, found⟩ | ⟨above, -, -, -, found⟩ <;>
      simp [found]

theorem topoParent_eq (block : shape.N ≤ shape.blockN) (inside : lane < shape.N) :
    memory.topoParent shape b lane = link ((memory.row shape b).parent lane) ∧
      memory.packedTopoParent shape b lane = link ((memory.row shape b).parent lane) := by
  obtain ⟨single, packed⟩ := parentOut_eq width closed block inside
  rw [topoParent, packedTopoParent, single, packed, and_self]
  have linked := parent_iff width closed inside
  cases found : (memory.row shape b).parent lane with
  | none =>
    rw [found] at linked
    rw [if_neg (fun active => linked.mpr active rfl)]
    rfl
  | some above =>
    obtain ⟨place, -, rfl, -⟩ := KeptRow.parent_place found
    rw [if_pos (linked.mp (by simp [found])), KeptRow.parentOut, if_neg (Nat.succ_ne_zero _), found]
    change (if 0 ≤ (above : Int) - 1 then (above : Int) - 1 + 1 else 0) = above
    by_cases top : above = 0
    · simp [top]
    · rw [if_pos (by omega)]
      omega

theorem depth_path {path : List Nat} (inside : lane < shape.N)
    (rooted : RootPath (Under (memory.row shape b).parent) 0 lane path) :
    memory.depth shape b lane + 1 = path.length := by
  cases lane with
  | zero =>
    have single : path = [0] := RootPath.unique KeptRow.rooted rooted .root
    rw [depth, validNonroot_root, KeptRow.depthWalk_over, single]
    rfl
  | succ place =>
    have placeInside : place < shape.budget := by omega
    have used : (memory.row shape b).valid place = true := by
      cases rooted with
      | child link rest =>
        obtain ⟨other, -, same, valid⟩ := KeptRow.parent_place link
        obtain rfl : place = other := by omega
        exact valid
    have walked := closed.depthWalk_path (fun node => rfl) rooted (Nat.succ_ne_zero place)
      shape.maxDepth 0 (closed.path_short rooted)
    rw [depth, kept_place width placeInside, validNonroot_place width placeInside, used]
    rw [Nat.add_sub_cancel, Nat.zero_add] at walked
    exact walked

omit closed in
theorem keyOld_place {place : Nat} (inside : place < shape.budget) :
    memory.keyOld shape b (place + 1) = (memory.row shape b).kept place := by
  simp [keyOld, isNonroot, load, width, inside, row]

/-- A walk from a query sees a key exactly when the key is on its path. -/
theorem walk_path {q k : Nat} {path : List Nat} (inside : q < shape.N) (keyInside : k < shape.N)
    (proper : q ≠ 0) (rooted : RootPath (Under (memory.row shape b).parent) 0 q path)
    (sees : Nat → Bool) (seen : ∀ old, sees old = true ↔ 0 < k ∧ memory.keyOld shape b k = old) :
    ((MaskWalk.turn memory.rawParents (b * shape.strideRaw) sees)^[shape.maxDepth]
      ⟨decide (k = 0), memory.kept shape b q, true⟩).visible = true ↔ k ∈ path := by
  obtain ⟨place, rfl⟩ : ∃ place, q = place + 1 := ⟨q - 1, by omega⟩
  rw [kept_place width (by omega)]
  have walked := closed.maskWalk_path (fun node => rfl) sees rooted (Nat.succ_ne_zero place)
    shape.maxDepth (decide (k = 0)) (closed.path_short rooted)
  rw [Nat.add_sub_cancel] at walked
  refine walked.trans ?_
  simp only [decide_eq_true_eq, seen]
  constructor
  · rintro (rfl | ⟨other, member, otherProper, keyProper, same⟩)
    · exact List.mem_of_getElem? rooted.first
    · obtain ⟨key, rfl⟩ : ∃ key, k = key + 1 := ⟨k - 1, by omega⟩
      have otherLink := rooted.mem_ancestor other member
      have otherInside : other < shape.N :=
        Nat.lt_of_le_of_lt (ancestor_le (fun _ _ => closed.parent_lt) otherLink) inside
      rw [keyOld_place width (by omega)] at same
      have equal := closed.kept_inj (show key < shape.budget by omega)
        (show other - 1 < shape.budget by omega) (by exact_mod_cast same)
      obtain rfl : key + 1 = other := by omega
      exact member
  · intro member
    by_cases keyRoot : k = 0
    · exact .inl keyRoot
    · obtain ⟨key, rfl⟩ : ∃ key, k = key + 1 := ⟨k - 1, by omega⟩
      refine .inr ⟨key + 1, member, keyRoot, Nat.succ_pos key, ?_⟩
      rw [keyOld_place width (by omega), Nat.add_sub_cancel]

omit width closed in
/-- A program for a row of the mask stores what the flat tile has in that row. -/
theorem rowVisible_eq {q k : Nat} (inside : q < shape.N) (keyInside : k < shape.N) :
    memory.rowVisible shape b q k = memory.visible shape b q k := by
  have sameKept : load memory.keptIdx (b * shape.strideKept + (q - 1)) (decide (0 < q)) 0 =
      memory.kept shape b q := by
    simp [kept, isNonroot, inside]
  have sameKeep : load memory.keptValid (b * shape.strideKept + (q - 1)) (decide (0 < q)) false =
      memory.keep shape b q := by
    simp [keep, isNonroot, inside]
  simp only [rowVisible, visible, sameKept, sameKeep, keyInside, decide_true, Bool.and_true]

/-- What a query sees: a node in use sees itself and its ancestors, any other node only itself. -/
theorem visible_iff {q k : Nat} (inside : q < shape.N) (keyInside : k < shape.N) :
    memory.visible shape b q k = true ↔ if (memory.row shape b).InUse q then
      Relation.ReflTransGen (Under (memory.row shape b).parent) q k else k = q := by
  have rooted : Rooted (Under (memory.row shape b).parent) 0 := KeptRow.rooted
  cases q with
  | zero =>
    have used : (memory.row shape b).InUse 0 := .inl rfl
    rw [if_pos used, visible]
    simp only [Nat.lt_irrefl, decide_false, Bool.false_and, Bool.or_false, true_and]
    rw [KeptRow.maskWalk_over, decide_eq_true_eq]
    constructor
    · rintro rfl
      exact .refl
    · intro chain
      rcases chain.cases_head with same | ⟨above, link, -⟩
      · exact same.symm
      · exact absurd link (rooted.top above)
  | succ place =>
    have placeInside : place < shape.budget := by omega
    have budget : place < (memory.row shape b).budget := placeInside
    have isUsed : (memory.row shape b).InUse (place + 1) ↔
        (memory.row shape b).valid place = true := by
      simp [KeptRow.InUse, budget]
    rw [visible, keep_place width placeInside]
    cases used : (memory.row shape b).valid place with
    | false =>
      rw [if_neg (by rw [isUsed, used]; decide)]
      simp only [Nat.succ_ne_zero, false_and, decide_false, Bool.not_false, Bool.and_true, Bool.and_false,
        Bool.false_and, Bool.or_false, Bool.false_or, Nat.succ_pos, decide_true, Bool.true_and]
      rw [KeptRow.maskWalk_over, decide_eq_true_eq]
    | true =>
      obtain ⟨path, onPath⟩ := closed.exists_path (place + 1) (isUsed.mpr used)
      rw [if_pos (isUsed.mpr used)]
      simp only [Nat.succ_ne_zero, false_and, decide_false, Bool.not_true, Bool.and_true, Bool.and_false,
        Bool.false_and, Bool.or_false, Bool.false_or, Nat.succ_pos, decide_true, Bool.true_and]
      rw [walk_path width closed inside keyInside (Nat.succ_ne_zero place) onPath _ (by simp)]
      exact ⟨onPath.mem_ancestor k, onPath.ancestor_mem rooted k⟩

/-- A node passes the tests for a child exactly when it is one. -/
theorem child_lane (block : shape.N ≤ shape.blockN) (node above : Nat) :
    0 < node ∧ memory.nodeValid shape b node = true ∧ memory.topoParent shape b node = above ↔
      node < shape.N ∧ (memory.row shape b).parent node = some above := by
  by_cases inside : node < shape.N
  · rw [(topoParent_eq width closed block inside).1]
    have linked := parent_iff width closed inside
    cases found : (memory.row shape b).parent node with
    | none => simp [link]
    | some other =>
      obtain ⟨place, -, rfl, -⟩ := KeptRow.parent_place found
      have active := linked.mp (by simp [found])
      simp [link, nodeValid, active, inside]
  · have inactive : memory.validNonroot shape b node = false := by
      simp [validNonroot, isNonroot, inside]
    constructor
    · rintro ⟨proper, valid, -⟩
      have notRoot : node ≠ 0 := by omega
      simp [nodeValid, inactive, notRoot] at valid
    · rintro ⟨within, -⟩
      exact absurd within inside

theorem nextToken_eq (block : shape.N ≤ shape.blockN) (inside : lane < shape.N) :
    memory.nextToken shape b lane = link (firstChild shape.N (memory.row shape b).parent lane) := by
  have lanes : 0 < shape.blockN := by omega
  rw [nextToken]
  refine Least.link ((laneMin_least shape.blockN _ (shape.N + 1) lanes).congr ?_) (by omega)
  intro node
  rw [mem_childrenFrom, child_lane width closed block node lane]
  constructor
  · rintro ⟨-, within, isChild⟩
    exact ⟨Nat.zero_le _, within, isChild⟩
  · rintro ⟨-, within, isChild⟩
    exact ⟨by omega, within, isChild⟩

theorem nextSibling_eq (block : shape.N ≤ shape.blockN) (inside : lane < shape.N) :
    memory.nextSibling shape b lane =
      link (ChildSibling.nextSibling shape.N (memory.row shape b).parent lane) := by
  have lanes : 0 < shape.blockN := by omega
  have least := laneMin_least shape.blockN (fun node => lane < node ∧
    memory.nodeValid shape b node = true ∧ memory.validNonroot shape b lane = true ∧
      memory.topoParent shape b node = memory.topoParent shape b lane) (shape.N + 1) lanes
  have linked := parent_iff width closed inside
  rw [nextSibling]
  cases found : (memory.row shape b).parent lane with
  | none =>
    rw [ChildSibling.nextSibling, found, Option.bind_none]
    rcases least.attained with absent | ⟨node, ⟨-, -, -, active, -⟩, -⟩
    · simp only [absent, Int.lt_irrefl, if_false]
      rfl
    · exact absurd found (linked.mpr active)
  | some above =>
    rw [nextSibling_child found]
    refine Least.link (least.congr ?_) (by omega)
    intro node
    have active := linked.mp (by simp [found])
    have own : memory.topoParent shape b lane = above := by
      rw [(topoParent_eq width closed block inside).1, found]
      rfl
    rw [mem_childrenFrom, own]
    constructor
    · rintro ⟨-, behind, valid, -, same⟩
      obtain ⟨within, sibling⟩ :=
        (child_lane width closed block node above).mp ⟨by omega, valid, same⟩
      exact ⟨behind, within, sibling⟩
    · rintro ⟨behind, within, sibling⟩
      obtain ⟨-, valid, same⟩ := (child_lane width closed block node above).mpr ⟨within, sibling⟩
      exact ⟨by omega, behind, valid, active, same⟩

theorem holds_row (block : shape.N ≤ shape.blockN) (strideOut : shape.strideOut = shape.N)
    {topoParents : Nat → Int}
    (stored : ∀ node < shape.N, topoParents (b * shape.N + node) = memory.packedTopoParent shape b node) :
    LinkMemory.Holds ⟨topoParents, memory.keptValid⟩ shape.strideKept shape.strideOut shape.N b
      (memory.row shape b).parent := by
  refine ⟨?_, ?_, ?_⟩
  · cases found : (memory.row shape b).parent 0 with
    | none => rfl
    | some above => exact absurd found (KeptRow.rooted.top above)
  · intro node inside
    rw [strideOut, ← (topoParent_eq width closed block inside).2]
    exact stored node inside
  · intro node proper inside
    rw [parent_iff width closed inside]
    obtain ⟨place, rfl⟩ : ∃ place, node = place + 1 := ⟨node - 1, by omega⟩
    rw [validNonroot_place width (by omega)]
    exact Iff.rfl

end FinaliseMemory

/-! ## Both launches -/

/-- What a tree of the batch is written as: the tokens and log-probabilities of its nodes, the sampled token
at the root, their parents, depths and positions, a mask that shows a node in use itself and its ancestors
and any other node only itself, and the links. -/
structure FinalisedRow {L : Type} [Zero L] [Bot L] (row : KeptRow) (N b seqLen sample : Nat)
    (token : Nat → Nat) (lp : Nat → L) (out : TreeOutputs L) : Prop where
  tokens : ∀ node < N, out.tokens (b * N + node) = row.written sample token 0 node
  lps : ∀ node < N, out.lps (b * N + node) = row.written 0 lp ⊥ node
  parents : ∀ node < N, out.parents (b * N + node) = row.parentOut node
  topoParents : ∀ node < N, out.topoParents (b * N + node) = link (row.parent node)
  depth : ∀ node < N, ∀ path, RootPath (Under row.parent) 0 node path →
    out.depth (b * N + node) + 1 = path.length
  positions : ∀ node < N, out.positions (b * N + node) = out.depth (b * N + node) + seqLen
  mask : ∀ q < N, ∀ k < N, out.mask (b * (N * N) + (q * N + k)) = true ↔
    if row.InUse q then Relation.ReflTransGen (Under row.parent) q k else k = q
  nextToken : ∀ node < N, out.nextToken (b * N + node) = link (firstChild N row.parent node)
  nextSibling : ∀ node < N, out.nextSibling (b * N + node) = link (nextSibling N row.parent node)

section launches

variable {L : Type} [Zero L] [Bot L] {memory : FinaliseMemory L} {strideRaw budget batch b size : Nat}
variable {before after : TreeOutputs L}

/-- A buffer of nodes after a launch with a program for each request. -/
theorem nodeStores_cell {A : Type} {value : Nat → Nat → A} {start finish : Nat → A}
    (outcome : Outcome start ((List.range batch).flatMap (fun b =>
      FinaliseMemory.nodeStores (.fixed strideRaw budget) b (value b))) finish)
    (inBatch : b < batch) (node : Nat) (inside : node < budget + 1) :
    finish (b * (budget + 1) + node) = value b node := by
  refine outcome.cell_eq (maskedStores_tiled batch (budget + 1)
    (List.range (nextPowerOf2 (budget + 1))) value ?_) inBatch inside
  intro column within
  exact List.mem_range.mpr (Nat.lt_of_lt_of_le within (le_nextPowerOf2 _))

omit [Zero L] [Bot L] in
/-- The mask after the one kernel: the flat tile has the rows one after the other. -/
theorem maskStores_cell {start finish : Nat → Bool}
    (outcome : Outcome start
      ((List.range batch).flatMap (memory.maskStores (.fixed strideRaw budget))) finish)
    (inBatch : b < batch) (q k : Nat) (inside : q < budget + 1) (keyInside : k < budget + 1) :
    finish (b * ((budget + 1) * (budget + 1)) + (q * (budget + 1) + k)) =
      memory.visible (.fixed strideRaw budget) b q k := by
  have row : (q * (budget + 1) + k) / (budget + 1) = q := address_div keyInside
  have column : q * (budget + 1) + k - q * (budget + 1) = k := by omega
  have place := address_lt inside keyInside
  apply outcome.agreed
  · apply List.mem_flatMap.mpr
    refine ⟨b, List.mem_range.mpr inBatch, List.mem_map.mpr ⟨q * (budget + 1) + k, ?_, ?_⟩⟩
    · refine List.mem_filter.mpr ⟨List.mem_range.mpr ?_, ?_⟩
      · exact Nat.lt_of_lt_of_le place (Nat.mul_le_mul (le_nextPowerOf2 _) (le_nextPowerOf2 _))
      · simp only [FinaliseShape.fixed, row, column]
        exact decide_eq_true ⟨inside, keyInside⟩
    · simp only [FinaliseShape.fixed, row, column]
  · intro entry member here
    obtain ⟨other, -, stored⟩ := List.mem_flatMap.mp member
    obtain ⟨otherPlace, kept, rfl⟩ := List.mem_map.mp stored
    have masked := of_decide_eq_true (List.mem_filter.mp kept).2
    simp only [FinaliseShape.fixed] at masked here ⊢
    have otherInside : otherPlace < (budget + 1) * (budget + 1) := by
      have whole := Nat.div_add_mod' otherPlace (budget + 1)
      have remainder := Nat.mod_lt otherPlace (Nat.succ_pos budget)
      exact lt_of_eq_of_lt whole.symm (address_lt masked.1 remainder)
    obtain ⟨rfl, rfl⟩ := address_inj otherInside place here
    rw [row, column]

omit [Zero L] [Bot L] in
theorem ancestorMaskRowKernel_cell {start finish : Nat → Bool}
    (outcome : Outcome start ((List.range (batch * (budget + 1))).flatMap
      (memory.ancestorMaskRowKernel (.fixed strideRaw budget))) finish)
    (inBatch : b < batch) (q k : Nat) (inside : q < budget + 1) (keyInside : k < budget + 1) :
    finish (b * ((budget + 1) * (budget + 1)) + (q * (budget + 1) + k)) =
      memory.rowVisible (.fixed strideRaw budget) b q k := by
  have row : (b * (budget + 1) + q) / (budget + 1) = b := address_div inside
  have column : b * (budget + 1) + q - b * (budget + 1) = q := by omega
  apply outcome.agreed
  · apply List.mem_flatMap.mpr
    refine ⟨b * (budget + 1) + q, List.mem_range.mpr (address_lt inBatch inside), ?_⟩
    refine List.mem_map.mpr ⟨k, List.mem_filter.mpr ⟨?_, decide_eq_true keyInside⟩, ?_⟩
    · exact List.mem_range.mpr (Nat.lt_of_lt_of_le keyInside (le_nextPowerOf2 _))
    · simp only [FinaliseShape.fixed, row, column, Nat.add_assoc]
  · intro entry member here
    obtain ⟨pid, -, stored⟩ := List.mem_flatMap.mp member
    obtain ⟨key, kept, rfl⟩ := List.mem_map.mp stored
    have within : key < budget + 1 := of_decide_eq_true (List.mem_filter.mp kept).2
    simp only [FinaliseShape.fixed] at here ⊢
    have split : pid - pid / (budget + 1) * (budget + 1) = pid % (budget + 1) := by
      have whole := Nat.div_add_mod' pid (budget + 1)
      omega
    have remainder := Nat.mod_lt pid (Nat.succ_pos budget)
    rw [split, Nat.add_assoc] at here
    obtain ⟨rfl, inRow⟩ := address_inj (address_lt remainder within) (address_lt inside keyInside) here
    obtain ⟨rfl, rfl⟩ := address_inj within keyInside inRow
    rw [split]

theorem FixedLaunch.finalised (launched : FixedLaunch memory (.fixed strideRaw budget) batch before after)
    (inBatch : b < batch)
    (closed : (memory.row (.fixed strideRaw budget) b).Closed size maxTreeDepth) :
    FinalisedRow (memory.row (.fixed strideRaw budget) b) (budget + 1) b (memory.seqLens b)
      (memory.sampleTokens b) (fun raw => memory.rawTokens (b * strideRaw + raw))
      (fun raw => memory.rawLps (b * strideRaw + raw)) after := by
  have block : (FinaliseShape.fixed strideRaw budget).N ≤ (FinaliseShape.fixed strideRaw budget).blockN :=
    le_nextPowerOf2 _
  refine ⟨?_, ?_, ?_, ?_, ?_, ?_, ?_, ?_, ?_⟩
  · intro node inside
    rw [nodeStores_cell launched.tokens inBatch node inside]
    exact FinaliseMemory.token_eq rfl inside
  · intro node inside
    rw [nodeStores_cell launched.lps inBatch node inside]
    exact FinaliseMemory.lp_eq rfl inside
  · intro node inside
    rw [nodeStores_cell launched.parents inBatch node inside]
    exact (FinaliseMemory.parentOut_eq rfl closed block inside).1
  · intro node inside
    rw [nodeStores_cell launched.topoParents inBatch node inside]
    exact (FinaliseMemory.topoParent_eq rfl closed block inside).1
  · intro node inside path rooted
    rw [nodeStores_cell launched.depth inBatch node inside]
    exact FinaliseMemory.depth_path rfl closed inside rooted
  · intro node inside
    rw [nodeStores_cell launched.positions inBatch node inside,
      nodeStores_cell launched.depth inBatch node inside]
  · intro q inside k keyInside
    rw [maskStores_cell launched.mask inBatch q k inside keyInside]
    exact FinaliseMemory.visible_iff rfl closed inside keyInside
  · intro node inside
    rw [nodeStores_cell launched.nextToken inBatch node inside]
    exact FinaliseMemory.nextToken_eq rfl closed block inside
  · intro node inside
    rw [nodeStores_cell launched.nextSibling inBatch node inside]
    exact FinaliseMemory.nextSibling_eq rfl closed block inside

theorem StagedLaunch.finalised (launched : StagedLaunch memory (.fixed strideRaw budget) batch before after)
    (inBatch : b < batch)
    (closed : (memory.row (.fixed strideRaw budget) b).Closed size maxTreeDepth) :
    FinalisedRow (memory.row (.fixed strideRaw budget) b) (budget + 1) b (memory.seqLens b)
      (memory.sampleTokens b) (fun raw => memory.rawTokens (b * strideRaw + raw))
      (fun raw => memory.rawLps (b * strideRaw + raw)) after := by
  have block : (FinaliseShape.fixed strideRaw budget).N ≤ (FinaliseShape.fixed strideRaw budget).blockN :=
    le_nextPowerOf2 _
  have links := fun node inside => launched.links.row block inBatch
    (FinaliseMemory.holds_row rfl closed block rfl
      (nodeStores_cell launched.topoParents inBatch)) node inside
  refine ⟨?_, ?_, ?_, ?_, ?_, ?_, ?_, fun node inside => (links node inside).1,
    fun node inside => (links node inside).2⟩
  · intro node inside
    rw [nodeStores_cell launched.tokens inBatch node inside]
    exact FinaliseMemory.token_eq rfl inside
  · intro node inside
    rw [nodeStores_cell launched.lps inBatch node inside]
    exact FinaliseMemory.lp_eq rfl inside
  · intro node inside
    rw [nodeStores_cell launched.parents inBatch node inside]
    exact (FinaliseMemory.parentOut_eq rfl closed block inside).2
  · intro node inside
    rw [nodeStores_cell launched.topoParents inBatch node inside]
    exact (FinaliseMemory.topoParent_eq rfl closed block inside).2
  · intro node inside path rooted
    rw [nodeStores_cell launched.depth inBatch node inside]
    exact FinaliseMemory.depth_path rfl closed inside rooted
  · intro node inside
    rw [nodeStores_cell launched.positions inBatch node inside,
      nodeStores_cell launched.depth inBatch node inside]
  · intro q inside k keyInside
    rw [ancestorMaskRowKernel_cell launched.mask inBatch q k inside keyInside,
      FinaliseMemory.rowVisible_eq inside keyInside]
    exact FinaliseMemory.visible_iff rfl closed inside keyInside

theorem exists_fixedLaunch (memory : FinaliseMemory L) (shape : FinaliseShape) (batch : Nat)
    (before : TreeOutputs L) : ∃ after, FixedLaunch memory shape batch before after :=
  ⟨⟨_, _, _, _, _, _, _, _, _, _⟩, ⟨.listed _ _, .listed _ _, .listed _ _, .listed _ _, .listed _ _,
    .listed _ _, .listed _ _, .listed _ _, .listed _ _, .listed _ _⟩⟩

theorem exists_stagedLaunch (memory : FinaliseMemory L) (shape : FinaliseShape) (batch : Nat)
    (before : TreeOutputs L) : ∃ after, StagedLaunch memory shape batch before after := by
  obtain ⟨topoParents, topo⟩ : ∃ result, Outcome before.topoParents ((List.range batch).flatMap (fun b =>
      FinaliseMemory.nodeStores shape b (memory.packedTopoParent shape b))) result := ⟨_, .listed _ _⟩
  obtain ⟨tokens, siblings, links⟩ : ∃ tokens siblings, TopologyLinks ⟨topoParents, memory.keptValid⟩ batch
      shape.strideKept shape.strideOut shape.N shape.blockN before.nextToken before.nextSibling tokens
      siblings := ⟨_, _, .listed _ _, .listed _ _⟩
  exact ⟨⟨_, _, topoParents, _, _, _, _, _, tokens, siblings⟩, ⟨.listed _ _, .listed _ _, topo,
    .listed _ _, .listed _ _, .listed _ _, .listed _ _, .listed _ _, links⟩⟩

/-- The two finalisers agree with the tree they encode. In a row whose nodes in use are closed under
raw parents both write the same, whatever the buffers held before: the tokens and log-probabilities of
the raw nodes, the parents of the packed tree,
the depth of every node in the raw tree, a mask that shows a node in use itself and its ancestors and
any other node only itself, and links that lead to nodes in use only and list the children of every
node. -/
theorem fixed_finalisers_agree {before' after' : TreeOutputs L}
    (single : FixedLaunch memory (.fixed strideRaw budget) batch before after)
    (staged : StagedLaunch memory (.fixed strideRaw budget) batch before' after') (inBatch : b < batch)
    (closed : (memory.row (.fixed strideRaw budget) b).Closed size maxTreeDepth) :
    (∀ node < budget + 1,
      after.tokens (b * (budget + 1) + node) = after'.tokens (b * (budget + 1) + node) ∧
      after.parents (b * (budget + 1) + node) = after'.parents (b * (budget + 1) + node) ∧
      after.topoParents (b * (budget + 1) + node) = after'.topoParents (b * (budget + 1) + node) ∧
      after.lps (b * (budget + 1) + node) = after'.lps (b * (budget + 1) + node) ∧
      after.depth (b * (budget + 1) + node) = after'.depth (b * (budget + 1) + node) ∧
      after.positions (b * (budget + 1) + node) = after'.positions (b * (budget + 1) + node) ∧
      (∀ k < budget + 1,
        after.mask (b * ((budget + 1) * (budget + 1)) + (node * (budget + 1) + k)) =
          after'.mask (b * ((budget + 1) * (budget + 1)) + (node * (budget + 1) + k))) ∧
      after.retrieveIndex (b * (budget + 1) + node) = after'.retrieveIndex (b * (budget + 1) + node) ∧
      after.nextToken (b * (budget + 1) + node) = after'.nextToken (b * (budget + 1) + node) ∧
      after.nextSibling (b * (budget + 1) + node) = after'.nextSibling (b * (budget + 1) + node)) ∧
    FinalisedRow (memory.row (.fixed strideRaw budget) b) (budget + 1) b (memory.seqLens b)
      (memory.sampleTokens b) (fun raw => memory.rawTokens (b * strideRaw + raw))
      (fun raw => memory.rawLps (b * strideRaw + raw)) after ∧
    (∀ place < budget, (memory.row (.fixed strideRaw budget) b).valid place = true →
      RawDepth (memory.row (.fixed strideRaw budget) b).raw
        ((memory.row (.fixed strideRaw budget) b).kept place)
        (after.depth (b * (budget + 1) + (place + 1)))) ∧
    (∀ node < budget + 1,
      (∀ other, target (after.nextToken (b * (budget + 1) + node)) = some other ∨
          target (after.nextSibling (b * (budget + 1) + node)) = some other →
        other < budget + 1 ∧ (memory.row (.fixed strideRaw budget) b).InUse other) ∧
      follow (fun node => target (after.nextSibling (b * (budget + 1) + node))) (budget + 1)
          (target (after.nextToken (b * (budget + 1) + node))) =
        some (children (budget + 1) (memory.row (.fixed strideRaw budget) b).parent node)) := by
  have written := single.finalised inBatch closed
  have writtenStaged := staged.finalised inBatch closed
  refine ⟨?_, written, ?_, ?_⟩
  · intro node inside
    refine ⟨?_, ?_, ?_, ?_, ?_, ?_, ?_, ?_, ?_, ?_⟩
    · rw [written.tokens node inside, writtenStaged.tokens node inside]
    · rw [written.parents node inside, writtenStaged.parents node inside]
    · rw [written.topoParents node inside, writtenStaged.topoParents node inside]
    · rw [written.lps node inside, writtenStaged.lps node inside]
    · rw [nodeStores_cell single.depth inBatch node inside,
        nodeStores_cell staged.depth inBatch node inside]
    · rw [nodeStores_cell single.positions inBatch node inside,
        nodeStores_cell staged.positions inBatch node inside]
    · intro k keyInside
      rw [Bool.eq_iff_iff, written.mask node inside k keyInside, writtenStaged.mask node inside k keyInside]
    · rw [nodeStores_cell single.retrieveIndex inBatch node inside,
        nodeStores_cell staged.retrieveIndex inBatch node inside]
    · rw [written.nextToken node inside, writtenStaged.nextToken node inside]
    · rw [written.nextSibling node inside, writtenStaged.nextSibling node inside]
  · intro place inside used
    obtain ⟨path, rooted⟩ := closed.exists_path (place + 1) (.inr ⟨inside, used⟩)
    have counted := written.depth (place + 1) (by omega) path rooted
    have deep := closed.rawDepth rooted (Nat.succ_ne_zero place)
    rwa [← counted, Nat.add_sub_cancel, Nat.add_sub_cancel] at deep
  · intro node inside
    have children_used : ∀ start above other,
        (childrenFrom (budget + 1) (memory.row (.fixed strideRaw budget) b).parent start above).head? =
          some other → other < budget + 1 ∧ (memory.row (.fixed strideRaw budget) b).InUse other := by
      intro start above other first
      obtain ⟨-, within, isChild, -⟩ := head_childrenFrom first
      obtain ⟨place, placeInside, rfl, used⟩ := KeptRow.parent_place isChild
      exact ⟨within, .inr ⟨placeInside, used⟩⟩
    refine ⟨?_, ?_⟩
    · rintro other (first | next)
      · rw [written.nextToken node inside, target_link] at first
        exact children_used _ _ _ first
      · rw [written.nextSibling node inside, target_link] at next
        obtain ⟨above, -, first⟩ := Option.bind_eq_some_iff.mp next
        exact children_used _ _ _ first
    · rw [written.nextToken node inside, target_link,
        follow_congr (budget + 1) (nextSibling (budget + 1) _) _
          (fun other within => by rw [written.nextSibling other within, target_link])
          (fun other below _ => nextSibling_inside _ _ other below) _ _ (firstChild_inside _ _ node)]
      exact follow_children _ (Nat.le_refl _)

end launches

/-- A chain of raw nodes with the first two of them kept. -/
def chainMemory : FinaliseMemory (WithBot Int) where
  rawTokens := fun node => node + 7
  rawParents := fun node => (node : Int) - 1
  rawLps := fun node => ((-(node : Int) : Int) : WithBot Int)
  keptIdx := fun place => place
  keptValid := fun place => decide (place < 2)
  sampleTokens := fun _ => 5
  seqLens := fun _ => 11

/-- Buffers that hold nothing yet. -/
def blankOutputs : TreeOutputs (WithBot Int) where
  tokens := fun _ => 0
  parents := fun _ => 0
  topoParents := fun _ => 0
  lps := fun _ => ⊥
  depth := fun _ => 0
  positions := fun _ => 0
  mask := fun _ => false
  retrieveIndex := fun _ => 0
  nextToken := fun _ => 0
  nextSibling := fun _ => 0

theorem chainMemory_depth {node depth : Nat}
    (deep : RawDepth (fun node => (node : Int) - 1) node depth) : depth = node + 1 := by
  induction deep with
  | top above => omega
  | child above rest ih => omega

theorem chainMemory_closed : (chainMemory.row (.fixed 3 2) 0).Closed 2 maxTreeDepth where
  ordered := by
    intro node inside
    simp only [FinaliseMemory.row, chainMemory]
    omega
  shallow := by
    intro node inside depth deep
    have same : (chainMemory.row (.fixed 3 2) 0).raw = fun node : Nat => (node : Int) - 1 := by
      funext node
      simp [FinaliseMemory.row, chainMemory]
    rw [same] at deep
    have bound := chainMemory_depth deep
    simp only [maxTreeDepth]
    omega
  ascending := by
    intro first second before inside
    simp only [FinaliseMemory.row, chainMemory]
    omega
  inside := by
    intro place inside _
    simp only [FinaliseMemory.row, FinaliseShape.fixed, chainMemory] at inside ⊢
    omega
  closed := by
    intro place inside _ up
    simp only [FinaliseMemory.row, FinaliseShape.fixed, chainMemory] at inside up ⊢
    exact ⟨place - 1, by omega, by simp; omega, by omega⟩

/-- The chain is finalised alike by both. -/
theorem fixed_finalisers_agree_chain :
    ∃ after after', FixedLaunch chainMemory (.fixed 3 2) 1 blankOutputs after ∧
      StagedLaunch chainMemory (.fixed 3 2) 1 blankOutputs after' ∧
      (∀ k < 3, after.mask (0 * (3 * 3) + (2 * 3 + k)) = after'.mask (0 * (3 * 3) + (2 * 3 + k))) ∧
      RawDepth (chainMemory.row (.fixed 3 2) 0).raw 1 (after.depth (0 * 3 + 2)) := by
  obtain ⟨after, single⟩ := exists_fixedLaunch chainMemory (.fixed 3 2) 1 blankOutputs
  obtain ⟨after', staged⟩ := exists_stagedLaunch chainMemory (.fixed 3 2) 1 blankOutputs
  obtain ⟨same, -, deep, -⟩ :=
    fixed_finalisers_agree single staged (Nat.zero_lt_one) chainMemory_closed
  exact ⟨after, after', single, staged, (same 2 (by decide)).2.2.2.2.2.2.1, deep 1 (by decide) rfl⟩

end SpecBlock.Serving
