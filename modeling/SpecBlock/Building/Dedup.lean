import Mathlib.Data.List.GetD
import Mathlib.Data.List.Sort
import SpecBlock.Building.FusedPrune
import SpecBlock.Foundation.Merging
import SpecBlock.Foundation.SortedGroups

/-!
# Fused de-duplication

`_dbd_dedup_kernel` merges nodes with one token under one parent, depth by depth, in one
program. A pass packs the parent, the token and the index of every node at its depth into one
key and sorts; a prefix sum over the starts of equal keys numbers the groups, and the numbers
are scattered back to the nodes. Each node then offers the bits of its log-probability, turned
over, above its inverted index, and an atomic maximum leaves the first of the best in its
group. Nodes worse than that are struck out, and their children are moved to it.

Turned-over bits are in the order of the numbers for numbers with the sign bit set. A positive
zero turned over is negative as a 64-bit integer, so it never wins a group. Depths are clamped
by the walk that counts them: the last pass also sees the nodes below the last depth, hanging
under the parents they had before it.
-/

namespace SpecBlock.Building

open Stores FloatBits

/-- The tensors of a tree that de-duplication works on; `real_lps` may be missing. -/
structure DedupTensors where
  parents : Nat → Int
  lps : Nat → Number
  realLps : Option (Nat → Number)

/-- The registers of the lanes, and the scratch buffer that is not reset between passes. -/
structure DedupRegisters extends DedupTensors where
  inverseIdx : Nat → Int

/-- The links from `cur` towards the root, as far as the walk goes; at the root it stays. -/
def walkDepth (parents : Nat → Int) : Nat → Nat → Nat
  | 0, _ => 0
  | turns + 1, cur =>
    if parents cur < 0 then walkDepth parents turns cur
    else 1 + walkDepth parents turns (parents cur).toNat

/-- `depths`: lanes behind the nodes stay at the root. -/
def laneDepth (n maxTreeDepth : Nat) (parents : Nat → Int) (pid : Nat) : Nat :=
  if pid < n then walkDepth parents maxTreeDepth pid else 0

/-- `SENTINEL_PACKED`. -/
def sentinelPacked : Int := 4611686018427387904

section pass

variable (n N targetD : Nat) (tokens depths : Nat → Nat) (parents : Nat → Int)

/-- `is_at_d`. -/
def IsAtD (pid : Nat) : Prop := depths pid = targetD ∧ pid < n

instance (pid : Nat) : Decidable (IsAtD n targetD depths pid) :=
  inferInstanceAs (Decidable (depths pid = targetD ∧ pid < n))

/-- `keys`: the parent above the token. -/
def dedupKey (pid : Nat) : Int := (parents pid + 1) * 4294967296 + tokens pid

/-- `packed`: the key above the index, in 64 bits; other depths sort to the back. -/
def packedNode (pid : Nat) : Int :=
  if IsAtD n targetD depths pid then
    (dedupKey tokens parents pid * (N + 1) + pid).bmod 18446744073709551616
  else sentinelPacked

/-- `sorted_packed`. -/
def sortedPacked : List Int :=
  ((List.range N).map (packedNode n N targetD tokens depths parents)).insertionSort (· ≤ ·)

end pass

section groups

variable (N : Nat) (sorted : List Int)

/-- `sort_idx`. -/
def sortIdx (lane : Nat) : Nat := ((sorted.getD lane 0).tmod (N + 1)).toNat

/-- `sorted_keys`. -/
def sortedKey (lane : Nat) : Int := (sorted.getD lane 0).tdiv (N + 1)

/-- `sorted_valid`. -/
def SortedValid (lane : Nat) : Prop := sorted.getD lane 0 ≠ sentinelPacked

instance (lane : Nat) : Decidable (SortedValid sorted lane) :=
  inferInstanceAs (Decidable (sorted.getD lane 0 ≠ sentinelPacked))

/-- `sorted_keys_prev`. -/
def sortedKeyPrev (lane : Nat) : Int :=
  if 0 < lane ∧ SortedValid sorted lane then sortedKey N sorted (lane - 1) else -1

/-- `is_first`. -/
def IsFirst (lane : Nat) : Prop :=
  sortedKey N sorted lane ≠ sortedKeyPrev N sorted lane ∧ SortedValid sorted lane

instance (lane : Nat) : Decidable (IsFirst N sorted lane) :=
  inferInstanceAs (Decidable
    (sortedKey N sorted lane ≠ sortedKeyPrev N sorted lane ∧ SortedValid sorted lane))

/-- `group_id_sorted`: the group starts up to a lane, less one. -/
def groupIdSorted (lane : Nat) : Int := (Nat.count (IsFirst N sorted) (lane + 1) : Int) - 1

/-- The scratch buffer once the group numbers are scattered back to the nodes. -/
def scatterGroups (inverseIdx : Nat → Int) : Nat → Int :=
  store inverseIdx (((List.range N).filter (fun lane => SortedValid sorted lane)).map
    (fun lane => (sortIdx N sorted lane, groupIdSorted N sorted lane)))

end groups

/-- `encoded_lp`: the bits turned over. -/
def encodedLp (lp : Number) : Nat := 4294967295 - lp.bits

/-- `combined`: the turned-over bits above the inverted index, as a signed 64-bit integer. -/
def combinedKey (lp : Number) (pid : Nat) : Int :=
  ((encodedLp lp * 4294967296 + (4294967295 - pid) : Nat) : Int).bmod 18446744073709551616

section winners

variable (n N targetD : Nat) (depths : Nat → Nat) (lps : Nat → Number) (inverse : Nat → Int)

/-- The atomic maximum over the lanes of a group, from zero. -/
def combinedWinner (group : Int) : Int :=
  ((List.range N).filter (fun pid => IsAtD n targetD depths pid ∧ inverse pid = group)).foldl
    (fun highest pid => max highest (combinedKey (lps pid) pid)) 0

/-- `winner_encoded_lp`: the high half. -/
def winnerEncodedLp (pid : Nat) : Int :=
  combinedWinner n N targetD depths lps inverse (inverse pid) / 4294967296 % 4294967296

/-- `winner_pid`: the low half turned over. -/
def winnerPid (pid : Nat) : Int :=
  4294967295 - combinedWinner n N targetD depths lps inverse (inverse pid) % 4294967296

/-- `to_mask`. -/
def ToMask (pid : Nat) : Prop :=
  IsAtD n targetD depths pid ∧
    (encodedLp (lps pid) : Int) < winnerEncodedLp n N targetD depths lps inverse pid ∧
      lps pid ≠ .negInfinity

instance (pid : Nat) : Decidable (ToMask n N targetD depths lps inverse pid) :=
  inferInstanceAs (Decidable (IsAtD n targetD depths pid ∧
    (encodedLp (lps pid) : Int) < winnerEncodedLp n N targetD depths lps inverse pid ∧
      lps pid ≠ .negInfinity))

end winners

/-- One turn of the loop over `target_d`: a depth with at most one node is passed over. -/
def dedupPass (n N targetD : Nat) (tokens depths : Nat → Nat) (registers : DedupRegisters) :
    DedupRegisters :=
  if 1 < ((List.range N).filter (fun pid => IsAtD n targetD depths pid)).length then
    let inverse := scatterGroups N (sortedPacked n N targetD tokens depths registers.parents)
      registers.inverseIdx
    let toMask := fun pid => decide (ToMask n N targetD depths registers.lps inverse pid)
    { parents := fun pid =>
        let parent := registers.parents pid
        if pid < n ∧ 0 ≤ parent ∧ toMask parent.toNat then
          winnerPid n N targetD depths registers.lps inverse parent.toNat
        else parent
      lps := fun pid => if toMask pid then .negInfinity else registers.lps pid
      realLps := registers.realLps.map (fun realLps pid =>
        if toMask pid then .negInfinity else realLps pid)
      inverseIdx := inverse }
  else registers

/-- The registers after the passes over the first depths. -/
def dedupPasses (n N : Nat) (tokens depths : Nat → Nat) (loaded : DedupRegisters) :
    Nat → DedupRegisters
  | 0 => loaded
  | depth + 1 =>
    dedupPass n N (depth + 1) tokens depths (dedupPasses n N tokens depths loaded depth)

/-- The registers once the tile is loaded. -/
def loadRegisters (n : Nat) (scratch : Nat → Int) (tree : DedupTensors) : DedupRegisters where
  parents := fun pid => if pid < n then tree.parents pid else -1
  lps := fun pid => if pid < n then tree.lps pid else .negInfinity
  realLps := tree.realLps.map (fun realLps pid => if pid < n then realLps pid else .negInfinity)
  inverseIdx := scratch

/-- Write the lanes of the nodes back. -/
def storeRegisters (n : Nat) (registers : DedupRegisters) (tree : DedupTensors) : DedupTensors where
  parents := fun pid => if pid < n then registers.parents pid else tree.parents pid
  lps := fun pid => if pid < n then registers.lps pid else tree.lps pid
  realLps := tree.realLps.bind (fun realLps => registers.realLps.map (fun written pid =>
    if pid < n then written pid else realLps pid))

/-- `_dbd_dedup_kernel`. The program holds the nodes in its lanes; it makes one pass for each depth
and stores the lanes at the end. The scratch buffer is only read where a pass has written it. -/
def dbdDedupKernel (tokens : Nat → Nat) (n N maxTreeDepth : Nat) (scratch : Nat → Int)
    (tree : DedupTensors) : DedupTensors :=
  storeRegisters n (dedupPasses n N tokens (laneDepth n maxTreeDepth tree.parents)
    (loadRegisters n scratch tree) maxTreeDepth) tree

/-- `dedup_depth_by_depth_triton`. A tree of one node is returned as it is. -/
def dedupDepthByDepthTriton (tokens : Nat → Nat) (n maxTreeDepth : Nat) (scratch : Nat → Int)
    (tree : DedupTensors) : DedupTensors :=
  if n ≤ 1 then tree else dbdDedupKernel tokens n (blockSize n) maxTreeDepth scratch tree

section passSpec

variable {n N targetD : Nat} {tokens depths : Nat → Nat} {parents : Nat → Int}
  {inverseIdx : Nat → Int}

/-- Keys of the nodes fit into the packed integers, below the sentinel. -/
structure Packable (n N : Nat) (tokens : Nat → Nat) (parents : Nat → Int) : Prop where
  covered : n ≤ N
  room : ((n : Int) + 1) * 4294967296 * (N + 1) ≤ sentinelPacked
  token_small : ∀ pid < n, tokens pid < 4294967296
  parent_inside : ∀ pid < n, -1 ≤ parents pid ∧ parents pid < n

/-- Two nodes at the depth of the pass with one token under one parent. -/
structure Twin (n targetD : Nat) (tokens depths : Nat → Nat) (parents : Nat → Int)
    (first second : Nat) : Prop where
  at_d : IsAtD n targetD depths first
  at_d' : IsAtD n targetD depths second
  parent : parents first = parents second
  token : tokens first = tokens second

/-- The key of a node lies below that of a node under the next parent. -/
theorem Packable.key_bounds (packable : Packable n N tokens parents) {pid : Nat}
    (inside : pid < n) : 0 ≤ dedupKey tokens parents pid ∧
      dedupKey tokens parents pid + 1 ≤ (n + 1) * 4294967296 := by
  have token := packable.token_small pid inside
  have parent := packable.parent_inside pid inside
  unfold dedupKey
  omega

/-- The packed key of a node does not wrap and is below the sentinel. -/
theorem Packable.packedNode_eq (packable : Packable n N tokens parents) {pid : Nat}
    (here : IsAtD n targetD depths pid) :
    packedNode n N targetD tokens depths parents pid = dedupKey tokens parents pid * (N + 1) + pid ∧
      0 ≤ dedupKey tokens parents pid * (N + 1) + pid ∧
      dedupKey tokens parents pid * (N + 1) + pid < sentinelPacked := by
  obtain ⟨nonnegative, small⟩ := packable.key_bounds here.2
  have room := packable.room
  have scaled := Int.mul_le_mul_of_nonneg_right small (show (0 : Int) ≤ (N : Int) + 1 by omega)
  have product : 0 ≤ dedupKey tokens parents pid * (N + 1) :=
    Int.mul_nonneg nonnegative (by omega)
  have inside := here.2
  have covered := packable.covered
  rw [Int.add_mul, Int.one_mul] at scaled
  have bound : dedupKey tokens parents pid * (N + 1) + pid < sentinelPacked := by omega
  have lower : 0 ≤ dedupKey tokens parents pid * (N + 1) + pid := by omega
  refine ⟨?_, lower, bound⟩
  rw [packedNode, if_pos here]
  unfold sentinelPacked at bound
  exact Int.bmod_eq_of_le (by omega) (by omega)

theorem Packable.unpack (packable : Packable n N tokens parents) {pid : Nat}
    (here : IsAtD n targetD depths pid) {sorted : List Int} {lane : Nat}
    (holds : sorted.getD lane 0 = packedNode n N targetD tokens depths parents pid) :
    sortIdx N sorted lane = pid ∧ sortedKey N sorted lane = dedupKey tokens parents pid ∧
      SortedValid sorted lane := by
  obtain ⟨same, lower, bound⟩ := packable.packedNode_eq here
  have inside : (pid : Int) < (N : Int) + 1 := by
    have := here.2
    have := packable.covered
    omega
  unfold sortIdx sortedKey SortedValid
  rw [holds, same]
  refine ⟨?_, ?_, bound.ne⟩
  · rw [Int.tmod_eq_emod_of_nonneg lower, Int.add_comm, Int.add_mul_emod_self_right,
      Int.emod_eq_of_lt (by omega) inside, Int.toNat_natCast]
  · rw [Int.tdiv_eq_ediv_of_nonneg lower, Int.add_comm, Int.add_mul_ediv_right _ _ (by omega),
      Int.ediv_eq_zero_of_lt (by omega) inside, Int.zero_add]

/-- Two nodes have one key when they carry one token under one parent. -/
theorem Packable.key_eq_iff (packable : Packable n N tokens parents) {first second : Nat}
    (inside : first < n) (inside' : second < n) :
    dedupKey tokens parents first = dedupKey tokens parents second ↔
      parents first = parents second ∧ tokens first = tokens second := by
  have token := packable.token_small first inside
  have token' := packable.token_small second inside'
  unfold dedupKey
  omega

theorem mem_sortedPacked {packed : Int} :
    packed ∈ sortedPacked n N targetD tokens depths parents ↔
      ∃ pid < N, packedNode n N targetD tokens depths parents pid = packed := by
  unfold sortedPacked
  rw [(List.perm_insertionSort _ _).mem_iff]
  simp

theorem length_sortedPacked : (sortedPacked n N targetD tokens depths parents).length = N := by
  simp [sortedPacked, List.length_insertionSort]

theorem Packable.exists_lane (packable : Packable n N tokens parents) {pid : Nat}
    (here : IsAtD n targetD depths pid) :
    ∃ lane < N, (sortedPacked n N targetD tokens depths parents).getD lane 0 =
      packedNode n N targetD tokens depths parents pid := by
  have member : packedNode n N targetD tokens depths parents pid ∈
      sortedPacked n N targetD tokens depths parents :=
    mem_sortedPacked.mpr ⟨pid, Nat.lt_of_lt_of_le here.2 packable.covered, rfl⟩
  obtain ⟨lane, inside, holds⟩ := List.mem_iff_getElem.mp member
  refine ⟨lane, by rwa [length_sortedPacked] at inside, ?_⟩
  rw [List.getD_eq_getElem _ _ inside, holds]

theorem exists_node {lane : Nat} (inside : lane < N)
    (valid : SortedValid (sortedPacked n N targetD tokens depths parents) lane) :
    ∃ pid, IsAtD n targetD depths pid ∧
      (sortedPacked n N targetD tokens depths parents).getD lane 0 =
        packedNode n N targetD tokens depths parents pid := by
  have within : lane < (sortedPacked n N targetD tokens depths parents).length := by
    rwa [length_sortedPacked]
  have member := List.getElem_mem within
  rw [← List.getD_eq_getElem _ 0 within] at member
  obtain ⟨pid, _, holds⟩ := mem_sortedPacked.mp member
  refine ⟨pid, ?_, holds.symm⟩
  by_contra elsewhere
  rw [packedNode, if_neg elsewhere] at holds
  exact valid holds.symm

theorem sortedPacked_rising {low high : Nat} (order : low ≤ high) (inside : high < N) :
    (sortedPacked n N targetD tokens depths parents).getD low 0 ≤
      (sortedPacked n N targetD tokens depths parents).getD high 0 := by
  have within : high < (sortedPacked n N targetD tokens depths parents).length := by
    rwa [length_sortedPacked]
  rw [List.getD_eq_getElem _ _ within, List.getD_eq_getElem _ _ (Nat.lt_of_le_of_lt order within)]
  have sorted := List.pairwise_insertionSort (· ≤ ·)
    ((List.range N).map (packedNode n N targetD tokens depths parents))
  rcases Nat.eq_or_lt_of_le order with rfl | before
  · exact le_refl _
  · exact List.pairwise_iff_getElem.mp sorted low high _ within before

theorem SortedValid.before (packable : Packable n N tokens parents) {low high : Nat}
    (valid : SortedValid (sortedPacked n N targetD tokens depths parents) high) (order : low ≤ high)
    (inside : high < N) : SortedValid (sortedPacked n N targetD tokens depths parents) low := by
  obtain ⟨pid, here, holds⟩ := exists_node inside valid
  obtain ⟨same, _, bound⟩ := packable.packedNode_eq here
  have below : (sortedPacked n N targetD tokens depths parents).getD low 0 ≤
      (sortedPacked n N targetD tokens depths parents).getD high 0 :=
    sortedPacked_rising order inside
  rw [holds, same] at below
  exact (below.trans_lt bound).ne

theorem Packable.groupIdSorted_eq_iff (packable : Packable n N tokens parents)
    {sorted : List Int} (lanes : sorted = sortedPacked n N targetD tokens depths parents)
    {first second : Nat} (inside : first < N) (inside' : second < N)
    (valid : SortedValid sorted first) (valid' : SortedValid sorted second) :
    groupIdSorted N sorted first = groupIdSorted N sorted second ↔
      sortedKey N sorted first = sortedKey N sorted second := by
  subst lanes
  have within : max first second < N := Nat.max_lt.mpr ⟨inside, inside'⟩
  have last : SortedValid (sortedPacked n N targetD tokens depths parents) (max first second) := by
    rcases Nat.le_total first second with order | order
    · rwa [Nat.max_eq_right order]
    · rwa [Nat.max_eq_left order]
  have front {lane : Nat} (early : lane < max first second + 1) :
      SortedValid (sortedPacked n N targetD tokens depths parents) lane :=
    last.before packable (Nat.le_of_lt_succ early) within
  have rising (low high : Nat) (order : low ≤ high) (early : high < max first second + 1) :
      sortedKey N (sortedPacked n N targetD tokens depths parents) low ≤
        sortedKey N (sortedPacked n N targetD tokens depths parents) high := by
    unfold sortedKey
    exact Int.tdiv_le_tdiv (by omega) (sortedPacked_rising order (by omega))
  have boundary (position : Nat) (early : position + 1 < max first second + 1) :
      IsFirst N (sortedPacked n N targetD tokens depths parents) (position + 1) ↔
        sortedKey N (sortedPacked n N targetD tokens depths parents) (position + 1) ≠
          sortedKey N (sortedPacked n N targetD tokens depths parents) position := by
    unfold IsFirst sortedKeyPrev
    simp [front early]
  have early : first < max first second + 1 := by omega
  have early' : second < max first second + 1 := by omega
  rw [← SortedGroups.count_eq_iff rising boundary early early']
  unfold groupIdSorted
  omega

theorem Packable.scatterGroups_eq (packable : Packable n N tokens parents)
    {sorted : List Int} (lanes : sorted = sortedPacked n N targetD tokens depths parents)
    {pid lane : Nat} (here : IsAtD n targetD depths pid) (inside : lane < N)
    (holds : sorted.getD lane 0 = packedNode n N targetD tokens depths parents pid) :
    scatterGroups N sorted inverseIdx pid = groupIdSorted N sorted lane := by
  obtain ⟨index, _, valid⟩ := packable.unpack here holds
  apply store_value
  · exact List.mem_map.mpr ⟨lane, List.mem_filter.mpr
      ⟨List.mem_range.mpr inside, decide_eq_true valid⟩, by rw [index]⟩
  · intro entry member same
    obtain ⟨other, listed, rfl⟩ := List.mem_map.mp member
    have inside' := List.mem_range.mp (List.mem_filter.mp listed).1
    have valid' : SortedValid sorted other := of_decide_eq_true (List.mem_filter.mp listed).2
    subst lanes
    obtain ⟨node, at_d, holds'⟩ := exists_node inside' valid'
    obtain ⟨index', key, _⟩ := packable.unpack at_d holds'
    obtain rfl : node = pid := index'.symm.trans same
    exact (packable.groupIdSorted_eq_iff rfl inside' inside valid' valid).mpr
      (key.trans (packable.unpack here holds).2.1.symm)

/-- Nodes are numbered alike when they carry one token under one parent. -/
theorem Packable.group_eq_iff (packable : Packable n N tokens parents)
    {sorted : List Int} (lanes : sorted = sortedPacked n N targetD tokens depths parents)
    {first second : Nat} (here : IsAtD n targetD depths first)
    (here' : IsAtD n targetD depths second) :
    scatterGroups N sorted inverseIdx first =
        scatterGroups N sorted inverseIdx second ↔
      parents first = parents second ∧ tokens first = tokens second := by
  obtain ⟨lane, inside, holds⟩ := packable.exists_lane here
  obtain ⟨lane', inside', holds'⟩ := packable.exists_lane here'
  rw [← lanes] at holds holds'
  obtain ⟨_, key, valid⟩ := packable.unpack here holds
  obtain ⟨_, key', valid'⟩ := packable.unpack here' holds'
  rw [packable.scatterGroups_eq lanes here inside holds,
    packable.scatterGroups_eq lanes here' inside' holds',
    packable.groupIdSorted_eq_iff lanes inside inside' valid valid', key, key',
    packable.key_eq_iff here.2 here'.2]

end passSpec

section winners

variable {n N targetD : Nat} {depths : Nat → Nat} {lps : Nat → Number} {inverse : Nat → Int}

/-- A running maximum is its start or one of the values, and none is above it. -/
theorem foldl_max_spec {K : Type} [LinearOrder K] (values : List Nat) (key : Nat → K) (start : K) :
    (values.foldl (fun highest pid => max highest (key pid)) start = start ∨
        ∃ pid ∈ values, values.foldl (fun highest pid => max highest (key pid)) start = key pid) ∧
      start ≤ values.foldl (fun highest pid => max highest (key pid)) start ∧
      ∀ pid ∈ values, key pid ≤ values.foldl (fun highest pid => max highest (key pid)) start := by
  induction values generalizing start with
  | nil => simp
  | cons pid values ih =>
    obtain ⟨reached, least, above⟩ := ih (max start (key pid))
    rw [List.foldl_cons]
    refine ⟨?_, (le_max_left start (key pid)).trans least, ?_⟩
    · rcases reached with first | ⟨other, member, same⟩
      · rcases max_choice start (key pid) with high | low
        · exact .inl (first.trans high)
        · exact .inr ⟨pid, List.mem_cons_self, first.trans low⟩
      · exact .inr ⟨other, List.mem_cons_of_mem _ member, same⟩
    · intro other member
      rcases List.mem_cons.mp member with rfl | later
      · exact (le_max_right start (key other)).trans least
      · exact above other later

/-- A number with the sign bit set is turned over into the lower half. -/
theorem encodedLp_of_negative {lp : Number} (signed : lp.negative = true) :
    encodedLp lp = 2147483647 - lp.magnitude := by
  have bits : lp.bits = 2147483648 + lp.magnitude := by simp [Number.bits, signed]
  have bound := lp.number
  unfold infinity at bound
  unfold encodedLp
  omega

/-- A number without the sign bit is turned over into the upper half. -/
theorem encodedLp_of_not_negative {lp : Number} (unsigned : lp.negative = false) :
    encodedLp lp = 4294967295 - lp.magnitude := by
  have bits : lp.bits = lp.magnitude := by simp [Number.bits, unsigned]
  unfold encodedLp
  rw [bits]

theorem combinedKey_of_negative {lp : Number} (signed : lp.negative = true) {pid : Nat}
    (small : pid < 4294967295) :
    combinedKey lp pid = ((2147483647 - lp.magnitude) * 4294967296 + (4294967295 - pid) : Nat) := by
  unfold combinedKey
  rw [encodedLp_of_negative signed]
  exact Int.bmod_eq_of_le (by omega) (by omega)

theorem combinedKey_of_not_negative {lp : Number} (unsigned : lp.negative = false) {pid : Nat}
    (small : pid < 4294967295) : combinedKey lp pid < 0 := by
  have bound := lp.number
  unfold infinity at bound
  unfold combinedKey
  rw [encodedLp_of_not_negative unsigned]
  have wrapped : (((4294967295 - lp.magnitude) * 4294967296 + (4294967295 - pid) : Nat) : Int).bmod
      18446744073709551616 =
      (((4294967295 - lp.magnitude) * 4294967296 + (4294967295 - pid) : Nat) : Int) -
        18446744073709551616 := by
    rw [← Int.sub_bmod_right]
    exact Int.bmod_eq_of_le (by omega) (by omega)
  omega

/-- The nodes of the group of a node. -/
def Grouped (n targetD : Nat) (depths : Nat → Nat) (inverse : Nat → Int) (pid other : Nat) : Prop :=
  IsAtD n targetD depths other ∧ inverse other = inverse pid

/-- The winner of a group: no number of the group with the sign bit set is greater, and none
that is as great has a smaller index. -/
structure Winner (lps : Nat → Number) (grouped : Nat → Prop) (winner : Nat) : Prop where
  member : grouped winner
  signed : (lps winner).negative = true
  greatest : ∀ other, grouped other → (lps other).negative = true → lps other ≤ lps winner
  earliest : ∀ other, grouped other → (lps other).negative = true → lps winner ≤ lps other →
    winner ≤ other

theorem Winner.value {grouped : Nat → Prop} {winner : Nat} (won : Winner lps grouped winner) :
    (lps winner).value = -((lps winner).magnitude : Int) := by
  simp [Number.value, won.signed]

/-- A group without a sign bit leaves the atomic maximum at zero. -/
theorem combinedWinner_of_unsigned (small : n ≤ 4294967295) {pid : Nat}
    (unsigned : ∀ other, Grouped n targetD depths inverse pid other → (lps other).negative = false) :
    combinedWinner n N targetD depths lps inverse (inverse pid) = 0 := by
  obtain ⟨reached, least, _⟩ := foldl_max_spec ((List.range N).filter (fun other =>
    IsAtD n targetD depths other ∧ inverse other = inverse pid))
    (fun other => combinedKey (lps other) other) 0
  unfold combinedWinner
  rcases reached with zero | ⟨other, member, same⟩
  · exact zero
  · have grouped := of_decide_eq_true (List.mem_filter.mp member).2
    have inside := grouped.1.2
    have negative : combinedKey (lps other) other < 0 :=
      combinedKey_of_not_negative (unsigned other grouped) (by omega)
    omega

/-- What an atomic maximum from zero leaves of the offers of a group. -/
structure TopOffer (lps : Nat → Number) (grouped : Nat → Prop) (top : Int) : Prop where
  reached : top = 0 ∨ ∃ pid, grouped pid ∧ top = combinedKey (lps pid) pid
  least : 0 ≤ top
  above : ∀ pid, grouped pid → combinedKey (lps pid) pid ≤ top

/-- The top offer of a group with a sign bit is that of the group's winner. -/
theorem TopOffer.winner {grouped : Nat → Prop} {top : Int} (topOffer : TopOffer lps grouped top)
    (small : ∀ pid, grouped pid → pid < 4294967295) {other : Nat} (group : grouped other)
    (signed : (lps other).negative = true) :
    ∃ winner, Winner lps grouped winner ∧
      top = ((2147483647 - (lps winner).magnitude) * 4294967296 + (4294967295 - winner) : Nat) := by
  have offer {node : Nat} (group : grouped node) (negative : (lps node).negative = true) :
      combinedKey (lps node) node =
        ((2147483647 - (lps node).magnitude) * 4294967296 + (4294967295 - node) : Nat) :=
    combinedKey_of_negative negative (small node group)
  have first := topOffer.above other group
  have inside := small other group
  rw [offer group signed] at first
  rcases topOffer.reached with zero | ⟨winner, group, same⟩
  · omega
  · have within := small winner group
    have negative : (lps winner).negative = true := by
      by_contra unsigned
      have offered : combinedKey (lps winner) winner < 0 :=
        combinedKey_of_not_negative (eq_false_of_ne_true unsigned) within
      omega
    have compare {node : Nat} (group' : grouped node) (signed' : (lps node).negative = true) :
        (2147483647 - (lps node).magnitude) * 4294967296 + (4294967295 - node) ≤
          (2147483647 - (lps winner).magnitude) * 4294967296 + (4294967295 - winner) := by
      have bound := topOffer.above node group'
      rw [same, offer group' signed', offer group negative] at bound
      exact Int.ofNat_le.mp bound
    have value {node : Nat} (signed' : (lps node).negative = true) :
        (lps node).value = -((lps node).magnitude : Int) := by simp [Number.value, signed']
    refine ⟨winner, ⟨group, negative, ?_, ?_⟩, same.trans (offer group negative)⟩
    · intro node group' signed'
      have bound := compare group' signed'
      have magnitude := (lps node).number
      have magnitude' := (lps winner).number
      have inside' := small node group'
      unfold infinity at magnitude magnitude'
      rw [Number.le_iff, value signed', value negative]
      omega
    · intro node group' signed' least'
      have bound := compare group' signed'
      have magnitude := (lps node).number
      have magnitude' := (lps winner).number
      have inside' := small node group'
      unfold infinity at magnitude magnitude'
      rw [Number.le_iff, value signed', value negative] at least'
      omega

/-- A group with a sign bit has a winner, whose offer the atomic maximum is. -/
theorem exists_winner (covered : n ≤ N) (small : n ≤ 4294967295) {pid other : Nat}
    (grouped : Grouped n targetD depths inverse pid other) (signed : (lps other).negative = true) :
    ∃ winner, Winner lps (Grouped n targetD depths inverse pid) winner ∧
      combinedWinner n N targetD depths lps inverse (inverse pid) =
        ((2147483647 - (lps winner).magnitude) * 4294967296 + (4294967295 - winner) : Nat) := by
  obtain ⟨reached, least, above⟩ := foldl_max_spec ((List.range N).filter (fun other =>
    IsAtD n targetD depths other ∧ inverse other = inverse pid))
    (fun other => combinedKey (lps other) other) 0
  have topOffer : TopOffer lps (Grouped n targetD depths inverse pid)
      (combinedWinner n N targetD depths lps inverse (inverse pid)) := by
    refine ⟨?_, least, ?_⟩
    · rcases reached with zero | ⟨winner, member, same⟩
      · exact .inl zero
      · have chosen := of_decide_eq_true (List.mem_filter.mp member).2
        exact .inr ⟨winner, chosen, same⟩
    · intro node group
      exact above node (List.mem_filter.mpr
        ⟨List.mem_range.mpr (Nat.lt_of_lt_of_le group.1.2 covered), decide_eq_true group⟩)
  exact topOffer.winner (fun _ group => Nat.lt_of_lt_of_le group.1.2 small) grouped signed

/-- Nodes are struck out when a number with the sign bit set in their group is greater. -/
theorem toMask_iff (covered : n ≤ N) (small : n ≤ 4294967295) {pid : Nat} :
    ToMask n N targetD depths lps inverse pid ↔
      IsAtD n targetD depths pid ∧ lps pid ≠ .negInfinity ∧
        ∃ other, Grouped n targetD depths inverse pid other ∧ (lps other).negative = true ∧
          lps pid < lps other := by
  unfold ToMask winnerEncodedLp
  refine and_congr_right fun here => and_comm.trans (and_congr_right fun _ => ?_)
  by_cases some_signed : ∃ other, Grouped n targetD depths inverse pid other ∧
      (lps other).negative = true
  · obtain ⟨other, grouped, signed⟩ := some_signed
    obtain ⟨winner, won, offer⟩ := exists_winner covered small grouped signed
    have inside := won.member.1.2
    have magnitude := (lps winner).number
    have high : combinedWinner n N targetD depths lps inverse (inverse pid) / 4294967296 % 4294967296 =
        (2147483647 - (lps winner).magnitude : Nat) := by
      rw [offer]
      omega
    rw [high, Int.ofNat_lt]
    have below : encodedLp (lps pid) < 2147483647 - (lps winner).magnitude ↔
        lps pid < lps winner := by
      have magnitude' := (lps pid).number
      unfold infinity at magnitude magnitude'
      rw [Number.lt_iff, won.value]
      cases sign : (lps pid).negative with
      | true =>
        rw [encodedLp_of_negative sign, Number.value, if_pos sign]
        omega
      | false =>
        rw [encodedLp_of_not_negative sign, Number.value, if_neg (by simp [sign])]
        omega
    rw [below]
    constructor
    · exact fun less => ⟨winner, won.member, won.signed, less⟩
    · rintro ⟨better, group, negative, less⟩
      exact less.trans_le (won.greatest better group negative)
  · have unsigned (other : Nat) (grouped : Grouped n targetD depths inverse pid other) :
        (lps other).negative = false := by
      by_contra signed
      exact some_signed ⟨other, grouped, eq_true_of_ne_false signed⟩
    rw [combinedWinner_of_unsigned small unsigned]
    constructor
    · intro less
      omega
    · rintro ⟨other, grouped, signed, _⟩
      exact absurd ⟨other, grouped, signed⟩ some_signed

/-- The winner that the children of a struck-out node are moved to. -/
theorem winnerPid_eq (covered : n ≤ N) (small : n ≤ 4294967295) {pid other : Nat}
    (grouped : Grouped n targetD depths inverse pid other) (signed : (lps other).negative = true) :
    ∃ winner : Nat, winnerPid n N targetD depths lps inverse pid = winner ∧
      Winner lps (Grouped n targetD depths inverse pid) winner := by
  obtain ⟨winner, won, offer⟩ := exists_winner covered small grouped signed
  refine ⟨winner, ?_, won⟩
  have inside := won.member.1.2
  unfold winnerPid
  rw [offer]
  omega

end winners

/-- What a pass does to a tree: nodes are struck out, and their children move to an heir. -/
structure Merges (n : Nat) (struck : Nat → Prop) (heir : Nat → Nat → Prop)
    (before after : DedupTensors) : Prop where
  lps_struck : ∀ pid, struck pid → after.lps pid = .negInfinity
  lps_kept : ∀ pid, ¬struck pid → after.lps pid = before.lps pid
  real_struck : ∀ pid, struck pid →
    after.realLps.map (fun realLps => realLps pid) = before.realLps.map (fun _ => .negInfinity)
  real_kept : ∀ pid, ¬struck pid →
    after.realLps.map (fun realLps => realLps pid) = before.realLps.map (fun realLps => realLps pid)
  moved : ∀ pid < n, ∀ parent : Nat, before.parents pid = parent → struck parent →
    ∃ winner : Nat, heir parent winner ∧ after.parents pid = winner
  stayed : ∀ pid, ¬(pid < n ∧ ∃ parent : Nat, before.parents pid = parent ∧ struck parent) →
    after.parents pid = before.parents pid

theorem Merges.refl {n : Nat} {struck : Nat → Prop} {heir : Nat → Nat → Prop}
    (none_struck : ∀ pid, ¬struck pid) (tree : DedupTensors) : Merges n struck heir tree tree where
  lps_struck := fun pid out => absurd out (none_struck pid)
  lps_kept := fun _ _ => rfl
  real_struck := fun pid out => absurd out (none_struck pid)
  real_kept := fun _ _ => rfl
  moved := fun _ _ parent _ out => absurd out (none_struck parent)
  stayed := fun _ _ => rfl

/-- A tree written node by node is what a pass leaves when the tests find the struck-out nodes
and the targets are their heirs. -/
theorem Merges.of_tests {n : Nat} {struck : Nat → Prop} {heir : Nat → Nat → Prop}
    {before after : DedupTensors} (test : Nat → Bool) (target : Nat → Int)
    (tested : ∀ pid, test pid = true ↔ struck pid)
    (heirs : ∀ pid, struck pid → ∃ winner : Nat, heir pid winner ∧ target pid = winner)
    (parents : ∀ pid, after.parents pid =
      if pid < n ∧ 0 ≤ before.parents pid ∧ test (before.parents pid).toNat = true then
        target (before.parents pid).toNat
      else before.parents pid)
    (lps : ∀ pid, after.lps pid = if test pid = true then .negInfinity else before.lps pid)
    (realLps : after.realLps = before.realLps.map (fun realLps pid =>
      if test pid = true then .negInfinity else realLps pid)) : Merges n struck heir before after where
  lps_struck := fun pid out => (lps pid).trans (if_pos ((tested pid).mpr out))
  lps_kept := fun pid kept => (lps pid).trans (if_neg (mt (tested pid).mp kept))
  real_struck := by
    intro pid out
    rw [realLps, Option.map_map]
    congr 1
    funext realLps
    exact if_pos ((tested pid).mpr out)
  real_kept := by
    intro pid kept
    rw [realLps, Option.map_map]
    congr 1
    funext realLps
    exact if_neg (mt (tested pid).mp kept)
  moved := by
    intro pid inside parent link out
    obtain ⟨winner, won, same⟩ := heirs parent out
    refine ⟨winner, won, ?_⟩
    rw [parents, link, Int.toNat_natCast,
      if_pos ⟨inside, Int.natCast_nonneg parent, (tested parent).mpr out⟩, same]
  stayed := by
    intro pid unmoved
    rw [parents, if_neg]
    rintro ⟨inside, below, out⟩
    exact unmoved ⟨inside, (before.parents pid).toNat, (Int.toNat_of_nonneg below).symm,
      (tested _).mp out⟩

section passes

variable {n N targetD : Nat} {tokens depths : Nat → Nat}

/-- A live node is outshone when a twin with the sign bit set is greater. -/
def Outshone (n targetD : Nat) (tokens depths : Nat → Nat) (tree : DedupTensors) (pid : Nat) : Prop :=
  tree.lps pid ≠ .negInfinity ∧
    ∃ other, Twin n targetD tokens depths tree.parents pid other ∧
      (tree.lps other).negative = true ∧ tree.lps pid < tree.lps other

/-- The heir of an outshone node is the winner among its twins. -/
def Heir (n targetD : Nat) (tokens depths : Nat → Nat) (tree : DedupTensors) (pid : Nat) :
    Nat → Prop :=
  Winner tree.lps (Twin n targetD tokens depths tree.parents pid)

theorem Packable.grouped_iff {parents : Nat → Int} (packable : Packable n N tokens parents)
    {inverseIdx : Nat → Int} {pid : Nat} (here : IsAtD n targetD depths pid) {other : Nat} :
    Grouped n targetD depths
        (scatterGroups N (sortedPacked n N targetD tokens depths parents) inverseIdx) pid other ↔
      Twin n targetD tokens depths parents pid other := by
  constructor
  · rintro ⟨here', same⟩
    have group := (packable.group_eq_iff rfl here here').mp same.symm
    exact ⟨here, here', group.1, group.2⟩
  · exact fun twin => ⟨twin.at_d',
      ((packable.group_eq_iff rfl here twin.at_d').mpr ⟨twin.parent, twin.token⟩).symm⟩

/-- Nodes are struck out by the kernel when they are outshone. -/
theorem Packable.toMask_iff {tree : DedupTensors} (packable : Packable n N tokens tree.parents)
    (small : n ≤ 4294967295) {inverseIdx : Nat → Int} {pid : Nat} :
    ToMask n N targetD depths tree.lps
        (scatterGroups N (sortedPacked n N targetD tokens depths tree.parents) inverseIdx) pid ↔
      Outshone n targetD tokens depths tree pid := by
  rw [SpecBlock.Building.toMask_iff packable.covered small]
  constructor
  · rintro ⟨here, alive, other, grouped, signed, less⟩
    exact ⟨alive, other, (packable.grouped_iff here).mp grouped, signed, less⟩
  · rintro ⟨alive, other, twin, signed, less⟩
    exact ⟨twin.at_d, alive, other, (packable.grouped_iff twin.at_d).mpr twin, signed, less⟩

theorem Outshone.company {tree : DedupTensors} {pid : Nat} (covered : n ≤ N)
    (out : Outshone n targetD tokens depths tree pid) :
    1 < ((List.range N).filter (fun pid => IsAtD n targetD depths pid)).length := by
  obtain ⟨_, other, twin, _, less⟩ := out
  have different : pid ≠ other := by
    rintro rfl
    exact absurd less (lt_irrefl _)
  have listed {node : Nat} (here : IsAtD n targetD depths node) :
      node ∈ (List.range N).filter (fun pid => IsAtD n targetD depths pid) :=
    List.mem_filter.mpr
      ⟨List.mem_range.mpr (Nat.lt_of_lt_of_le here.2 covered), decide_eq_true here⟩
  have both : [pid, other].Subperm ((List.range N).filter (fun pid => IsAtD n targetD depths pid)) := by
    apply List.Nodup.subperm (by simpa using different)
    intro node member
    rcases List.mem_pair.mp member with rfl | rfl
    · exact listed twin.at_d
    · exact listed twin.at_d'
  exact both.length_le

theorem dedupPass_merges (registers : DedupRegisters)
    (packable : Packable n N tokens registers.parents) (small : n ≤ 4294967295) :
    Merges n (Outshone n targetD tokens depths registers.toDedupTensors)
      (Heir n targetD tokens depths registers.toDedupTensors) registers.toDedupTensors
      (dedupPass n N targetD tokens depths registers).toDedupTensors := by
  unfold dedupPass
  split
  next crowded =>
    have masked (pid : Nat) : decide (ToMask n N targetD depths registers.lps
        (scatterGroups N (sortedPacked n N targetD tokens depths registers.parents)
          registers.inverseIdx) pid) = true ↔
        Outshone n targetD tokens depths registers.toDedupTensors pid :=
      decide_eq_true_iff.trans (packable.toMask_iff small)
    have heirs (pid : Nat) (out : Outshone n targetD tokens depths registers.toDedupTensors pid) :
        ∃ winner : Nat, Heir n targetD tokens depths registers.toDedupTensors pid winner ∧
          winnerPid n N targetD depths registers.lps (scatterGroups N (sortedPacked n N targetD
            tokens depths registers.parents) registers.inverseIdx) pid = winner := by
      obtain ⟨_, other, twin, signed, _⟩ := out
      have members (node : Nat) : Grouped n targetD depths
          (scatterGroups N (sortedPacked n N targetD tokens depths registers.parents)
            registers.inverseIdx) pid node ↔
          Twin n targetD tokens depths registers.parents pid node :=
        packable.grouped_iff twin.at_d
      obtain ⟨winner, same, won⟩ :=
        winnerPid_eq packable.covered small ((members other).mpr twin) signed
      refine ⟨winner, ⟨(members winner).mp won.member, won.signed, ?_, ?_⟩, same⟩
      · exact fun node twin' => won.greatest node ((members node).mpr twin')
      · exact fun node twin' => won.earliest node ((members node).mpr twin')
    exact Merges.of_tests _ _ masked heirs (fun _ => rfl) (fun _ => rfl) rfl
  next few => exact Merges.refl (fun pid out => few (out.company packable.covered)) _

theorem Winner.at_d {tree : DedupTensors} {pid winner : Nat}
    (won : Heir n targetD tokens depths tree pid winner) : IsAtD n targetD depths winner :=
  won.member.at_d'

theorem Merges.packable {struck : Nat → Prop} {heir : Nat → Nat → Prop}
    {before after : DedupTensors} (merges : Merges n struck heir before after)
    (inside : ∀ pid winner, heir pid winner → winner < n)
    (packable : Packable n N tokens before.parents) : Packable n N tokens after.parents where
  covered := packable.covered
  room := packable.room
  token_small := packable.token_small
  parent_inside := by
    intro pid within
    by_cases moves : ∃ parent : Nat, before.parents pid = parent ∧ struck parent
    · obtain ⟨parent, link, out⟩ := moves
      obtain ⟨winner, won, now⟩ := merges.moved pid within parent link out
      have := inside parent winner won
      omega
    · rw [merges.stayed pid fun both => moves both.2]
      exact packable.parent_inside pid within

end passes

end SpecBlock.Building
