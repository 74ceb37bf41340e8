import Mathlib.Algebra.Ring.Nat
import Mathlib.Data.List.GetD
import Mathlib.Data.List.Sort
import SpecBlock.Foundation.BudgetClosure
import SpecBlock.Foundation.FloatBits
import SpecBlock.Foundation.Stores

/-!
# The fused fixed-width prune

`fused_prune` takes a tree of fixed width and writes the best nodes of the budget behind the
root into compact buffers. One program does all of it: it packs the bits of each negated
log-probability over the node's index, sorts, marks the first nodes of the order, numbers the
marked ones by a prefix sum, and scatters their fields to the new positions. A parent is looked
up by its new position; one that is not marked would count as the root.

Packed keys rise with the index where log-probabilities are equal. When a parent is never
below its child, and stands before it where they are equal, it is packed lower, so it is marked
whenever the child is and no node is attached to the root in its place. The lanes of one store
have different addresses, and the lanes of a launch are numbered in 32 bits.
-/

namespace SpecBlock.Building

open Stores FloatBits BudgetClosure

/-- The arrays of a tree of fixed width: `tn_lps` orders the nodes, `tn_real_lps` is carried
along. -/
structure TreeNodes where
  tokens : List Int
  parents : List Int
  lps : List Number
  realLps : List Number
  ranks : List Int
  blocks : List Int
  slots : List Int
  deriving DecidableEq, Repr

/-- The compact buffers, the root at index zero. -/
structure CompactBuffers where
  tokens : Nat → Int
  parents : Nat → Int
  realLps : Nat → Number
  ranks : Nat → Int
  blocks : Nat → Int
  slots : Nat → Int
  valid : Nat → Int

/-- Double a block until it covers the nodes. -/
def growBlock (n : Nat) : Nat → Nat → Nat
  | 0, block => block
  | fuel + 1, block => if block < n then growBlock n fuel (2 * block) else block

/-- `BLOCK_SIZE`. -/
def blockSize (n : Nat) : Nat := max (growBlock n n 1) 64

/-- A masked load of the first `n` entries of an array. -/
def loadLane {α : Type} (n : Nat) (array : List α) (other : α) (pid : Nat) : α :=
  if pid < n then array.getD pid other else other

/-- `packed`: the bits of the negated log-probability over the index, wrapped to a signed
64-bit integer. -/
def packedKey (lp : Number) (pid : Nat) : Int :=
  ((lp.negate.bits * 4294967296 + pid : Nat) : Int).bmod 18446744073709551616

/-- `sorted_pids`: the low halves of the sorted keys. -/
def sortedPids (n N : Nat) (tnLps : List Number) : List Nat :=
  (((List.range N).map (fun pid => packedKey (loadLane n tnLps .negInfinity pid) pid)).insertionSort
    (· ≤ ·)).map (fun key => (key % 4294967296).toNat)

/-- `keep_mask`: ones at the first indices of the order. -/
def keepMask (budget N : Nat) (sorted : List Nat) : Nat → Nat :=
  store (fun _ => 0)
    (((List.range N).filter (· < budget)).map (fun lane => (sorted.getD lane 0, 1)))

/-- `new_pos`: how many marked lanes come before a marked lane. -/
def newPos (keep : Nat → Nat) (pid : Nat) : Int :=
  if keep pid = 1 then (((List.range (pid + 1)).map keep).sum : Int) - keep pid else -1

/-- `new_parent`: the position behind the root of a parent that is marked, or the root. -/
def newParent (n : Nat) (keep : Nat → Nat) (tnParents : List Int) (pid : Nat) : Int :=
  let tnPar := loadLane n tnParents (-1) pid
  let parNewPos := if pid < n then newPos keep (max tnPar 0).toNat else -1
  if 0 ≤ tnPar ∧ 0 ≤ parNewPos then parNewPos + 1 else 0

/-- A cleared buffer with the fields of the kept lanes scattered behind the root. -/
def scatterKept {α : Type} (Np1 : Nat) (cleared : α) (buffer : Nat → α) (kept : List Nat)
    (position : Nat → Int) (field : Nat → α) : Nat → α :=
  store (fun place => if place < Np1 then cleared else buffer place)
    (kept.map (fun pid => ((position pid + 1).toNat, field pid)))

/-- `_fz_prune_kernel`. The nodes with the greatest log-probabilities within the budget move to the
front of the buffers in their old order, behind the root. A node whose log-probability is minus
infinity is kept but not valid. -/
def fzPruneKernel (nodes : TreeNodes) (cf : CompactBuffers) (sampleToken : Int)
    (n budget Np1 N : Nat) : CompactBuffers :=
  let keep := keepMask budget N (sortedPids n N nodes.lps)
  let kept := (List.range N).filter (fun pid => keep pid = 1 ∧ pid < n)
  let position := newPos keep
  { tokens := Function.update (scatterKept Np1 0 cf.tokens kept position
      (loadLane n nodes.tokens 0)) 0 sampleToken
    parents := Function.update (scatterKept Np1 0 cf.parents kept position
      (newParent n keep nodes.parents)) 0 0
    realLps := scatterKept Np1 .negInfinity cf.realLps kept position
      (loadLane n nodes.realLps .negInfinity)
    ranks := scatterKept Np1 0 cf.ranks kept position (loadLane n nodes.ranks 0)
    blocks := scatterKept Np1 0 cf.blocks kept position (loadLane n nodes.blocks 0)
    slots := scatterKept Np1 0 cf.slots kept position (loadLane n nodes.slots 0)
    valid := Function.update (scatterKept Np1 0 cf.valid kept position (fun pid =>
      if loadLane n nodes.realLps .negInfinity pid = .negInfinity then 0 else 1)) 0 1 }

/-- `fused_prune`: without nodes nothing is launched. -/
def fusedPrune (nodes : TreeNodes) (cf : CompactBuffers) (sampleToken : Int) (n budget Np1 : Nat) :
    CompactBuffers :=
  if n = 0 then cf else fzPruneKernel nodes cf sampleToken n budget Np1 (blockSize n)

theorem le_growBlock (n fuel block : Nat) (enough : n ≤ 2 ^ fuel * block) :
    n ≤ growBlock n fuel block := by
  induction fuel generalizing block with
  | zero => simpa [growBlock] using enough
  | succ fuel ih =>
    unfold growBlock
    split
    next short =>
      apply ih
      rw [Nat.pow_succ] at enough
      rwa [← Nat.mul_assoc]
    next covered => omega

theorem le_blockSize (n : Nat) : n ≤ blockSize n := by
  have covered := le_growBlock n n 1 (by simpa using Nat.lt_two_pow_self.le)
  exact covered.trans (Nat.le_max_left _ _)

theorem growBlock_le (n fuel exponent power : Nat) (small : n ≤ 2 ^ power)
    (start : exponent ≤ power) : growBlock n fuel (2 ^ exponent) ≤ 2 ^ power := by
  induction fuel generalizing exponent with
  | zero => exact Nat.pow_le_pow_right (by decide) start
  | succ fuel ih =>
    unfold growBlock
    split
    next short =>
      have lower : exponent < power := by
        by_contra high
        have := Nat.pow_le_pow_right (by decide : 0 < 2) (Nat.le_of_not_lt high)
        omega
      rw [← Nat.pow_succ']
      exact ih (exponent + 1) lower
    next covered => exact Nat.pow_le_pow_right (by decide) start

/-- Nodes numbered in 31 bits have a block numbered in 31 bits. -/
theorem blockSize_le {n : Nat} (small : n ≤ 2 ^ 31) : blockSize n ≤ 2 ^ 31 :=
  Nat.max_le.mpr ⟨growBlock_le n n 0 31 small (by decide), by decide⟩

/-- A tree as the builders leave it: the arrays hold `n` nodes, log-probabilities are not
positive, and a parent is never below its child and stands before it where they are equal. -/
structure Prunable (n : Nat) (nodes : TreeNodes) : Prop where
  tokens : n ≤ nodes.tokens.length
  parents : n ≤ nodes.parents.length
  lps : n ≤ nodes.lps.length
  realLps : n ≤ nodes.realLps.length
  ranks : n ≤ nodes.ranks.length
  blocks : n ≤ nodes.blocks.length
  slots : n ≤ nodes.slots.length
  logProbs : ∀ lp ∈ nodes.lps, lp.value ≤ 0
  inside : ∀ node < n, -1 ≤ nodes.parents.getD node 0 ∧ nodes.parents.getD node 0 < n
  links : ∀ node < n, ∀ above : Nat, nodes.parents.getD node 0 = above →
    nodes.lps.getD node .negInfinity ≤ nodes.lps.getD above .negInfinity ∧
      (nodes.lps.getD above .negInfinity ≤ nodes.lps.getD node .negInfinity → above < node)

/-- A node comes before another: its log-probability is higher, or equal and its index lower. -/
def Ahead (tnLps : List Number) (first second : Nat) : Prop :=
  tnLps.getD second .negInfinity < tnLps.getD first .negInfinity ∨
    (tnLps.getD first .negInfinity).value = (tnLps.getD second .negInfinity).value ∧ first < second

instance (tnLps : List Number) (first second : Nat) : Decidable (Ahead tnLps first second) :=
  inferInstanceAs (Decidable (_ ∨ _))

/-- The best nodes of a budget, in index order. -/
def bestNodes (n budget : Nat) (tnLps : List Number) : List Nat :=
  (List.range n).filter (fun node =>
    ((List.range n).filter (fun other => Ahead tnLps other node)).length < budget)

section order

variable {n N budget : Nat} {tnLps : List Number}

theorem loadLane_nonpositive (logProbs : ∀ lp ∈ tnLps, lp.value ≤ 0) (pid : Nat) :
    (loadLane n tnLps .negInfinity pid).value ≤ 0 := by
  unfold loadLane
  split
  · by_cases inside : pid < tnLps.length
    · rw [List.getD_eq_getElem _ _ inside]
      exact logProbs _ (List.getElem_mem inside)
    · rw [List.getD_eq_default _ _ (by omega)]
      exact Number.negInfinity_nonpositive
  · exact Number.negInfinity_nonpositive

theorem packedKey_eq {lp : Number} (nonpositive : lp.value ≤ 0) {pid : Nat} (small : pid < 4294967296) :
    packedKey lp pid = (lp.magnitude * 4294967296 + pid : Nat) := by
  unfold packedKey
  rw [Number.negate_bits nonpositive]
  have bound := lp.number
  unfold infinity at bound
  exact Int.bmod_eq_of_le (by omega) (by omega)

/-- The key of a lane. -/
def laneKey (n : Nat) (tnLps : List Number) (pid : Nat) : Int :=
  packedKey (loadLane n tnLps .negInfinity pid) pid

/-- The lane of a key. -/
def keyLane (key : Int) : Nat := (key % 4294967296).toNat

theorem keyLane_laneKey (logProbs : ∀ lp ∈ tnLps, lp.value ≤ 0) {pid : Nat}
    (small : pid < 4294967296) : keyLane (laneKey n tnLps pid) = pid := by
  unfold keyLane laneKey
  rw [packedKey_eq (loadLane_nonpositive logProbs pid) small]
  omega

theorem sortedPids_eq (n N : Nat) (tnLps : List Number) : sortedPids n N tnLps =
    (((List.range N).map (laneKey n tnLps)).insertionSort (· ≤ ·)).map keyLane := rfl

/-- Keys are in the order of the nodes, and lanes without a node have the last keys. -/
theorem laneKey_lt_iff (logProbs : ∀ lp ∈ tnLps, lp.value ≤ 0) {first second : Nat}
    (small : first < 4294967296) (inside : second < n) (small' : n ≤ 4294967296) :
    laneKey n tnLps first < laneKey n tnLps second ↔ first < n ∧ Ahead tnLps first second := by
  have nonpositive := loadLane_nonpositive (n := n) logProbs
  have loadSecond : loadLane n tnLps .negInfinity second = tnLps.getD second .negInfinity := by
    simp [loadLane, inside]
  have keys : laneKey n tnLps first < laneKey n tnLps second ↔
      (loadLane n tnLps .negInfinity first).magnitude * 4294967296 + first <
        (loadLane n tnLps .negInfinity second).magnitude * 4294967296 + second := by
    unfold laneKey
    rw [packedKey_eq (nonpositive first) small, packedKey_eq (nonpositive second) (by omega)]
    omega
  rw [keys]
  by_cases insideFirst : first < n
  · have loadFirst : loadLane n tnLps .negInfinity first = tnLps.getD first .negInfinity := by
      simp [loadLane, insideFirst]
    have lower := nonpositive first
    have lower' := nonpositive second
    rw [loadFirst] at lower ⊢
    rw [loadSecond] at lower' ⊢
    rw [Ahead, Number.lt_iff_magnitude lower' lower, Number.value_of_nonpositive lower,
      Number.value_of_nonpositive lower']
    omega
  · have loadFirst : loadLane n tnLps .negInfinity first = .negInfinity := by
      simp [loadLane, insideFirst]
    have bound := (loadLane n tnLps .negInfinity second).number
    have greatest : Number.negInfinity.magnitude = infinity := rfl
    rw [loadFirst, greatest]
    constructor
    · intro before
      omega
    · exact fun both => absurd both.1 insideFirst

theorem sortedPids_perm (logProbs : ∀ lp ∈ tnLps, lp.value ≤ 0) (small : N ≤ 4294967296) :
    (sortedPids n N tnLps).Perm (List.range N) := by
  have all : ((List.range N).map (laneKey n tnLps)).map keyLane = List.range N := by
    have same : ∀ pid ∈ List.range N, (keyLane ∘ laneKey n tnLps) pid = id pid := by
      intro pid member
      have lane : pid < 4294967296 := by
        have := List.mem_range.mp member
        omega
      rw [Function.comp_apply, keyLane_laneKey logProbs lane, id]
    rw [List.map_map, List.map_congr_left same, List.map_id]
  have perm := (List.perm_insertionSort (· ≤ ·) ((List.range N).map (laneKey n tnLps))).map keyLane
  rw [sortedPids_eq]
  exact perm.trans (List.Perm.of_eq all)

theorem sortedPids_rising (logProbs : ∀ lp ∈ tnLps, lp.value ≤ 0) (small : N ≤ 4294967296) :
    (sortedPids n N tnLps).Pairwise (fun first second =>
      laneKey n tnLps first < laneKey n tnLps second) := by
  have lanes : ∀ key ∈ ((List.range N).map (laneKey n tnLps)).insertionSort (· ≤ ·),
      laneKey n tnLps (keyLane key) = key := by
    intro key member
    obtain ⟨pid, inside, rfl⟩ := List.mem_map.mp ((List.mem_insertionSort _).mp member)
    have lane : pid < 4294967296 := by
      have := List.mem_range.mp inside
      omega
    rw [keyLane_laneKey logProbs lane]
  have distinct : (sortedPids n N tnLps).Nodup :=
    (sortedPids_perm logProbs small).nodup_iff.mpr List.nodup_range
  rw [sortedPids_eq, List.Nodup, List.pairwise_map] at distinct
  rw [sortedPids_eq, List.pairwise_map]
  refine ((List.pairwise_insertionSort (· ≤ ·) _).and distinct).imp_of_mem ?_
  intro first second inFirst inSecond both
  rw [lanes first inFirst, lanes second inSecond]
  exact lt_of_le_of_ne both.1 fun same => both.2 (congrArg keyLane same)

theorem range_filter_lt (inside : n ≤ N) : (List.range N).filter (· < n) = List.range n := by
  obtain ⟨rest, rfl⟩ := Nat.exists_eq_add_of_le inside
  rw [List.range_add, List.filter_append, List.filter_eq_self.mpr (by simp),
    List.filter_eq_nil_iff.mpr (by simp), List.append_nil]

/-- A node comes early in the order when few nodes are ahead of it. -/
theorem mem_take_sortedPids (logProbs : ∀ lp ∈ tnLps, lp.value ≤ 0) (covers : n ≤ N)
    (small : N ≤ 4294967296) {pid : Nat} (inside : pid < n) :
    pid ∈ (sortedPids n N tnLps).take budget ↔
      ((List.range n).filter (fun other => Ahead tnLps other pid)).length < budget := by
  have perm := sortedPids_perm (n := n) logProbs small
  have falling := (sortedPids_rising (n := n) logProbs small).imp
    (fun {first second} rising => (Int.neg_lt_neg rising : -laneKey n tnLps second < -laneKey n tnLps first))
  have member : pid ∈ sortedPids n N tnLps := perm.mem_iff.mpr (List.mem_range.mpr (by omega))
  rw [mem_take_iff (fun lane => -laneKey n tnLps lane) falling member,
    (perm.filter _).length_eq, ← range_filter_lt covers, List.filter_filter]
  have same : ∀ other ∈ List.range N,
      decide (-laneKey n tnLps pid < -laneKey n tnLps other) =
        (decide (Ahead tnLps other pid) && decide (other < n)) := by
    intro other listed
    have lane := List.mem_range.mp listed
    rw [← Bool.decide_and, decide_eq_decide, Int.neg_lt_neg_iff,
      laneKey_lt_iff logProbs (by omega) inside (by omega), and_comm]
  rw [List.filter_congr same]

theorem keepMask_eq (budget : Nat) {sorted : List Nat} (all : sorted.length = N) (pid : Nat) :
    keepMask budget N sorted pid = if pid ∈ sorted.take budget then 1 else 0 := by
  have stores : ((List.range N).filter (· < budget)).map (fun lane => (sorted.getD lane 0, 1)) =
      (sorted.take budget).map (fun pid => (pid, 1)) := by
    have front : (List.range N).filter (· < budget) = List.range (min budget N) := by
      rcases Nat.le_total budget N with less | more
      · rw [range_filter_lt less, Nat.min_eq_left less]
      · rw [Nat.min_eq_right more]
        refine List.filter_eq_self.mpr fun lane member => ?_
        exact decide_eq_true (Nat.lt_of_lt_of_le (List.mem_range.mp member) more)
    rw [front]
    apply List.ext_getElem
    · simp [all]
    · intro place before after
      rw [List.length_map, List.length_range] at before
      simp only [List.getElem_map, List.getElem_range, List.getElem_take]
      rw [List.getD_eq_getElem _ _ (by omega)]
  unfold keepMask
  rw [stores]
  split
  next marked =>
    refine store_value _ _ pid 1 (List.mem_map_of_mem marked) fun entry member _ => ?_
    obtain ⟨other, -, rfl⟩ := List.mem_map.mp member
    rfl
  next unmarked =>
    refine store_frame _ _ pid fun entry member same => unmarked ?_
    obtain ⟨other, listed, rfl⟩ := List.mem_map.mp member
    exact same ▸ listed

end order

section positions

variable {n : Nat} {keep : Nat → Nat}

theorem sum_marks (marks : ∀ pid, keep pid = 0 ∨ keep pid = 1) (lanes : List Nat) :
    (lanes.map keep).sum = (lanes.filter (fun pid => keep pid = 1)).length := by
  induction lanes with
  | nil => rfl
  | cons pid rest ih =>
    rcases marks pid with unmarked | marked
    · simp [unmarked, ih]
    · simp [marked, ih, Nat.add_comm]

/-- The new position of a marked node is its place among the marked nodes. -/
theorem newPos_kept (marks : ∀ pid, keep pid = 0 ∨ keep pid = 1) {new old : Nat}
    (read : ((List.range n).filter (fun pid => keep pid = 1))[new]? = some old) :
    newPos keep old = new := by
  obtain ⟨inside, marked⟩ := List.mem_filter.mp (List.mem_of_getElem? read)
  have marked : keep old = 1 := by simpa using marked
  obtain ⟨rest, rfl⟩ := Nat.exists_eq_add_of_lt (List.mem_range.mp inside)
  have count : ((List.range old).filter (fun pid => keep pid = 1)).length = new := by
    have split : (List.range (old + rest + 1)).filter (fun pid => keep pid = 1) =
        (List.range old).filter (fun pid => keep pid = 1) ++
          old :: ((List.range rest).map (fun later => old + 1 + later)).filter
            (fun pid => keep pid = 1) := by
      rw [Nat.add_right_comm, List.range_add, List.range_succ, List.append_assoc,
        List.filter_append, List.singleton_append, List.filter_cons_of_pos (by simp [marked])]
    have distinct : ((List.range (old + rest + 1)).filter (fun pid => keep pid = 1)).Nodup :=
      List.nodup_range.filter _
    have here : ((List.range (old + rest + 1)).filter (fun pid => keep pid = 1))[
        ((List.range old).filter (fun pid => keep pid = 1)).length]? = some old := by
      rw [split, List.getElem?_append_right (Nat.le_refl _), Nat.sub_self]
      rfl
    obtain ⟨before, atHere⟩ := List.getElem?_eq_some_iff.mp here
    obtain ⟨before', atNew⟩ := List.getElem?_eq_some_iff.mp read
    exact (List.Nodup.getElem_inj_iff distinct).mp (atHere.trans atNew.symm)
  rw [newPos, if_pos marked, sum_marks marks, List.range_succ, List.filter_append, List.length_append,
    count, marked]
  simp [marked]

end positions

section scatter

variable {α : Type} {Np1 : Nat} {cleared : α} {buffer : Nat → α} {kept : List Nat}
  {position : Nat → Int} {field : Nat → α}

theorem scatterKept_kept (placed : ∀ new old : Nat, kept[new]? = some old → position old = new)
    {new old : Nat} (read : kept[new]? = some old) :
    scatterKept Np1 cleared buffer kept position field (new + 1) = field old := by
  have address {place node : Nat} (here : kept[place]? = some node) :
      (position node + 1).toNat = place + 1 := by
    rw [placed place node here]
    omega
  refine store_value _ _ (new + 1) (field old) ?_ fun entry member same => ?_
  · exact List.mem_map.mpr ⟨old, List.mem_of_getElem? read, by rw [address read]⟩
  · obtain ⟨other, listed, rfl⟩ := List.mem_map.mp member
    obtain ⟨place, here⟩ := List.mem_iff_getElem?.mp listed
    have samePlace : place = new := by
      rw [address here] at same
      omega
    rw [samePlace, read, Option.some_inj] at here
    rw [here]

theorem scatterKept_cleared (placed : ∀ new old : Nat, kept[new]? = some old → position old = new)
    {place : Nat} (behind : kept.length < place) (within : place < Np1) :
    scatterKept Np1 cleared buffer kept position field place = cleared := by
  have untouched : scatterKept Np1 cleared buffer kept position field place =
      if place < Np1 then cleared else buffer place := by
    refine store_frame _ _ place fun entry member same => ?_
    obtain ⟨other, listed, rfl⟩ := List.mem_map.mp member
    obtain ⟨new, here⟩ := List.mem_iff_getElem?.mp listed
    have bound := (List.getElem?_eq_some_iff.mp here).1
    simp only [placed new other here] at same
    omega
  rw [untouched, if_pos within]

end scatter

section selection

variable {n budget : Nat} {nodes : TreeNodes}

theorem Ahead.trans {tnLps : List Number} {first second third : Nat}
    (earlier : Ahead tnLps first second) (later : Ahead tnLps second third) :
    Ahead tnLps first third := by
  simp only [Ahead, Number.lt_iff] at earlier later ⊢
  omega

theorem Prunable.ahead (prunable : Prunable n nodes) {node above : Nat} (inside : node < n)
    (link : nodes.parents.getD node 0 = above) : Ahead nodes.lps above node := by
  obtain ⟨notBelow, before⟩ := prunable.links node inside above link
  rw [Number.le_iff] at notBelow
  simp only [Ahead, Number.lt_iff]
  by_cases equal : (nodes.lps.getD above .negInfinity).value ≤
      (nodes.lps.getD node .negInfinity).value
  · have first := before equal
    omega
  · omega

theorem Prunable.best_closed (prunable : Prunable n nodes) {node above : Nat}
    (member : node ∈ bestNodes n budget nodes.lps) (link : nodes.parents.getD node 0 = above) :
    above ∈ bestNodes n budget nodes.lps := by
  simp only [bestNodes, List.mem_filter, List.mem_range, decide_eq_true_eq] at member ⊢
  have bound := (prunable.inside node member.1).2
  refine ⟨by omega, (List.Sublist.length_le ?_).trans_lt member.2⟩
  refine List.monotone_filter_right _ fun other before => ?_
  simp only [decide_eq_true_eq] at before ⊢
  exact before.trans (prunable.ahead member.1 link)

theorem bestNodes_length {tnLps : List Number} (logProbs : ∀ lp ∈ tnLps, lp.value ≤ 0)
    (small : n ≤ 4294967296) : (bestNodes n budget tnLps).length = min n budget := by
  have perm := sortedPids_perm (n := n) logProbs small
  have members : ∀ node, node ∈ bestNodes n budget tnLps ↔
      node ∈ (sortedPids n n tnLps).take budget := by
    intro node
    simp only [bestNodes, List.mem_filter, List.mem_range, decide_eq_true_eq]
    constructor
    · rintro ⟨inside, few⟩
      exact (mem_take_sortedPids logProbs (Nat.le_refl n) small inside).mpr few
    · intro taken
      have inside := List.mem_range.mp (perm.mem_iff.mp (List.mem_of_mem_take taken))
      exact ⟨inside, (mem_take_sortedPids logProbs (Nat.le_refl n) small inside).mp taken⟩
  have same : (bestNodes n budget tnLps).Perm ((sortedPids n n tnLps).take budget) := by
    refine (List.perm_ext_iff_of_nodup (List.nodup_range.filter _) ?_).mpr members
    exact (perm.nodup_iff.mpr List.nodup_range).sublist (List.take_sublist _ _)
  rw [same.length_eq, List.length_take, perm.length_eq, List.length_range, Nat.min_comm]

/-- What stands in the compact buffers: the fields of the kept nodes behind the root, parents
by their new positions, and cleared places after them. -/
structure Selected (budget : Nat) (nodes : TreeNodes) (sampleToken : Int) (kept : List Nat)
    (cf : CompactBuffers) : Prop where
  root : cf.tokens 0 = sampleToken ∧ cf.parents 0 = 0 ∧ cf.valid 0 = 1
  fields : ∀ new old : Nat, kept[new]? = some old →
    cf.tokens (new + 1) = nodes.tokens.getD old 0 ∧
    cf.realLps (new + 1) = nodes.realLps.getD old .negInfinity ∧
    cf.ranks (new + 1) = nodes.ranks.getD old 0 ∧
    cf.blocks (new + 1) = nodes.blocks.getD old 0 ∧
    cf.slots (new + 1) = nodes.slots.getD old 0
  live : ∀ new old : Nat, kept[new]? = some old →
    cf.valid (new + 1) = if nodes.realLps.getD old .negInfinity = .negInfinity then 0 else 1
  linked : ∀ new old : Nat, kept[new]? = some old →
    (nodes.parents.getD old 0 = -1 ∧ cf.parents (new + 1) = 0) ∨
    ∃ newAbove above : Nat, nodes.parents.getD old 0 = above ∧ kept[newAbove]? = some above ∧
      cf.parents (new + 1) = newAbove + 1
  cleared : ∀ place, kept.length < place → place ≤ budget →
    cf.tokens place = 0 ∧ cf.parents place = 0 ∧ cf.realLps place = .negInfinity ∧
    cf.ranks place = 0 ∧ cf.blocks place = 0 ∧ cf.slots place = 0 ∧ cf.valid place = 0

theorem Prunable.kept_lanes (prunable : Prunable n nodes) (budget : Nat) {N : Nat} (covers : n ≤ N)
    (small : N ≤ 4294967296) :
    (∀ pid, keepMask budget N (sortedPids n N nodes.lps) pid = 0 ∨
      keepMask budget N (sortedPids n N nodes.lps) pid = 1) ∧
    (List.range n).filter (fun pid => keepMask budget N (sortedPids n N nodes.lps) pid = 1) =
      bestNodes n budget nodes.lps ∧
    (List.range N).filter (fun pid =>
        keepMask budget N (sortedPids n N nodes.lps) pid = 1 ∧ pid < n) =
      bestNodes n budget nodes.lps := by
  have length : (sortedPids n N nodes.lps).length = N := by
    rw [(sortedPids_perm prunable.logProbs small).length_eq, List.length_range]
  have marks := keepMask_eq budget length
  have best : (List.range n).filter
      (fun pid => keepMask budget N (sortedPids n N nodes.lps) pid = 1) =
        bestNodes n budget nodes.lps := by
    refine List.filter_congr fun pid member => ?_
    rw [marks, decide_eq_decide,
      ← mem_take_sortedPids prunable.logProbs covers small (List.mem_range.mp member)]
    split
    next marked => simp [marked]
    next unmarked => simp [unmarked]
  refine ⟨fun pid => ?_, best, ?_⟩
  · rw [marks]
    split
    · exact .inr rfl
    · exact .inl rfl
  · rw [← best, ← range_filter_lt covers, List.filter_filter]
    exact List.filter_congr fun pid _ => Bool.decide_and _ _

/-- The fused prune keeps the best nodes of the budget, in index order, with no node attached
to the root that was not. -/
theorem fusedPrune_selects (nodes : TreeNodes) (cf : CompactBuffers) (sampleToken : Int)
    (n budget : Nat) (launched : 0 < n) (small : n ≤ 2 ^ 31) (prunable : Prunable n nodes) :
    (bestNodes n budget nodes.lps).length = min n budget ∧
      Selected budget nodes sampleToken (bestNodes n budget nodes.lps)
        (fusedPrune nodes cf sampleToken n budget (budget + 1)) := by
  have lanes : blockSize n ≤ 4294967296 := (blockSize_le small).trans (by decide)
  have nodesSmall : n ≤ 4294967296 := (le_blockSize n).trans lanes
  obtain ⟨marks, best, kept⟩ := prunable.kept_lanes budget (le_blockSize n) lanes
  refine ⟨bestNodes_length prunable.logProbs nodesSmall, ?_⟩
  unfold fusedPrune fzPruneKernel
  rw [if_neg (by omega)]
  dsimp only
  rw [kept]
  generalize keep_eq : keepMask budget (blockSize n) (sortedPids n (blockSize n) nodes.lps) = keep
    at marks best
  have placed : ∀ new old : Nat, (bestNodes n budget nodes.lps)[new]? = some old →
      newPos keep old = new := by
    intro new old read
    exact newPos_kept marks (best ▸ read)
  have inside {new old : Nat} (read : (bestNodes n budget nodes.lps)[new]? = some old) : old < n :=
    List.mem_range.mp (List.mem_filter.mp (List.mem_of_getElem? read)).1
  have loaded {α : Type} {array : List α} {other other' : α} {new old : Nat}
      (read : (bestNodes n budget nodes.lps)[new]? = some old) (long : n ≤ array.length) :
      loadLane n array other old = array.getD old other' := by
    have bound := inside read
    rw [loadLane, if_pos bound, List.getD_eq_getElem _ _ (by omega), List.getD_eq_getElem _ _ (by omega)]
  constructor <;> dsimp only
  · exact ⟨Function.update_self .., Function.update_self .., Function.update_self ..⟩
  · intro new old read
    refine ⟨?_, ?_, ?_, ?_, ?_⟩
    · rw [Function.update_of_ne (by omega), scatterKept_kept placed read, loaded read prunable.tokens]
    · rw [scatterKept_kept placed read, loaded read prunable.realLps]
    · rw [scatterKept_kept placed read, loaded read prunable.ranks]
    · rw [scatterKept_kept placed read, loaded read prunable.blocks]
    · rw [scatterKept_kept placed read, loaded read prunable.slots]
  · intro new old read
    rw [Function.update_of_ne (by omega), scatterKept_kept placed read, loaded read prunable.realLps]
  · intro new old read
    have bound := inside read
    have parent : loadLane n nodes.parents (-1) old = nodes.parents.getD old 0 :=
      loaded read prunable.parents
    obtain ⟨low, high⟩ := prunable.inside old bound
    simp only [Function.update_of_ne (Nat.succ_ne_zero new), scatterKept_kept placed read, newParent,
      parent, if_pos bound]
    by_cases top : nodes.parents.getD old 0 = -1
    · exact .inl ⟨top, by rw [if_neg (fun valid => by omega)]⟩
    · -- The parent is ahead of its child, so it is kept and has a position.
      obtain ⟨above, link⟩ := Int.eq_ofNat_of_zero_le (by omega : 0 ≤ nodes.parents.getD old 0)
      obtain ⟨newAbove, atAbove⟩ := List.mem_iff_getElem?.mp
        (prunable.best_closed (List.mem_of_getElem? read) link)
      refine .inr ⟨newAbove, above, link, atAbove, ?_⟩
      have clamped : (max (above : Int) 0).toNat = above := by omega
      rw [link, clamped, placed newAbove above atAbove, if_pos ⟨by omega, by omega⟩]
  · intro place behind within
    have bound : place < budget + 1 := by omega
    have proper : place ≠ 0 := by omega
    simp only [Function.update_of_ne proper, scatterKept_cleared placed behind bound, and_self]

/-- A root child with three children of falling log-probabilities. -/
def fanNodes : TreeNodes where
  tokens := [5, 7, 8, 9]
  parents := [-1, 0, 0, 0]
  lps := [⟨true, 1, by decide⟩, ⟨true, 2, by decide⟩, ⟨true, 4, by decide⟩, ⟨true, 3, by decide⟩]
  realLps := [⟨true, 1, by decide⟩, ⟨true, 2, by decide⟩, .negInfinity, ⟨true, 3, by decide⟩]
  ranks := [0, 1, 2, 3]
  blocks := [1, 1, 1, 1]
  slots := [0, 1, 1, 1]

/-- Buffers of zeros. -/
def blankBuffers : CompactBuffers where
  tokens := fun _ => 0
  parents := fun _ => 0
  realLps := fun _ => .negInfinity
  ranks := fun _ => 0
  blocks := fun _ => 0
  slots := fun _ => 0
  valid := fun _ => 0

/-- The best three of four nodes. -/
theorem fusedPrune_selects_fan :
    (bestNodes 4 3 fanNodes.lps).length = min 4 3 ∧
      Selected 3 fanNodes 1 (bestNodes 4 3 fanNodes.lps)
        (fusedPrune fanNodes blankBuffers 1 4 3 (3 + 1)) := by
  have inside : ∀ node < 4, -1 ≤ fanNodes.parents.getD node 0 ∧
      fanNodes.parents.getD node 0 < (4 : Nat) := by decide
  have links : ∀ node < 4, ∀ above < 4, fanNodes.parents.getD node 0 = ((above : Nat) : Int) →
      fanNodes.lps.getD node .negInfinity ≤ fanNodes.lps.getD above .negInfinity ∧
        (fanNodes.lps.getD above .negInfinity ≤ fanNodes.lps.getD node .negInfinity →
          above < node) := by decide
  refine fusedPrune_selects fanNodes blankBuffers 1 4 3 (by decide) (by decide)
    ⟨by decide, by decide, by decide, by decide, by decide, by decide, by decide, by decide, inside,
      fun node bound above link => links node bound above ?_ link⟩
  have := (inside node bound).2
  omega

/-- Two root children, the second one better, with log-probabilities that are positive. -/
def positiveNodes : TreeNodes where
  tokens := [5, 7]
  parents := [-1, -1]
  lps := [⟨false, 1065353216, by decide⟩, ⟨false, 1073741824, by decide⟩]
  realLps := [⟨false, 1065353216, by decide⟩, ⟨false, 1073741824, by decide⟩]
  ranks := [0, 1]
  blocks := [1, 1]
  slots := [0, 0]

/-- Without nodes the root is not placed, and of positive log-probabilities the lower one is
kept. -/
theorem fusedPrune_outside_domain :
    (fusedPrune fanNodes blankBuffers 1 0 3 4).valid 0 = 0 ∧
      bestNodes 2 1 positiveNodes.lps = [1] ∧
      (fusedPrune positiveNodes blankBuffers 1 2 1 2).tokens 1 = 5 := by
  refine ⟨by decide, by decide, ?_⟩
  decide +kernel

end selection

end SpecBlock.Building
