import SpecBlock.Building.Dedup

/-!
# What de-duplication leaves of a tree

On a tree of distinct log-probabilities that fall along its links, each pass of the kernel is a
pass of the abstract merging: only live nodes of its depth are compared, the sign bit is set on
all of them, and the winner is the best of the duplicates. The passes keep the invariant that
the tree represents what has been merged, so in the end every branch is still spelled by a live
node, parents are live and better than their children, and no duplicates are left at the depths
the passes cover. Below the last depth, duplicates that hung under one parent are merged as well,
but children of merged parents are not.
-/

namespace SpecBlock.Building

open FloatBits Merging

/-- The parent of a node that has one. -/
def linkOf (n : Nat) (parents : Nat → Int) (pid : Nat) : Option Nat :=
  if pid < n ∧ 0 ≤ parents pid then some (parents pid).toNat else none

/-- A node is live while its log-probability is not minus infinity. -/
def Live (tree : DedupTensors) (pid : Nat) : Prop := tree.lps pid ≠ .negInfinity

/-- More links than the bound lead from the node to the root. -/
def DeeperThan (bound : Nat) (parents : Nat → Int) (pid : Nat) : Prop :=
  walkDepth parents (bound + 1) pid = bound + 1

/-- The token sequences from the root to the live nodes. -/
def branches (n : Nat) (tokens : Nat → Nat) (tree : DedupTensors) : Set (List Nat) :=
  {branch | ∃ pid < n, Live tree pid ∧ Merging.Spells (linkOf n tree.parents) tokens pid branch}

/-- A tree whose log-probabilities are finite, not positive, pairwise distinct and fall along
the links, and whose keys fit the block. -/
structure FallingTree (n N : Nat) (tokens : Nat → Nat) (tree : DedupTensors) : Prop where
  packable : Packable n N tokens tree.parents
  finite : ∀ pid < n, tree.lps pid ≠ .negInfinity
  nonpositive : ∀ pid < n, (tree.lps pid).value ≤ 0
  distinct : ∀ first < n, ∀ second < n,
    (tree.lps first).value = (tree.lps second).value → first = second
  falling : ∀ pid < n, ∀ parent : Nat, tree.parents pid = parent → tree.lps pid < tree.lps parent

section links

variable {n N maxTreeDepth : Nat} {tokens : Nat → Nat} {parents : Nat → Int} {pid upper : Nat}

theorem linkOf_eq_some : linkOf n parents pid = some upper ↔ pid < n ∧ parents pid = upper := by
  unfold linkOf
  split
  · rw [Option.some.injEq]
    omega
  · simp only [reduceCtorEq, false_iff]
    omega

theorem linkOf_eq_none : linkOf n parents pid = none ↔ (pid < n → parents pid < 0) := by
  unfold linkOf
  split
  · simp only [reduceCtorEq, false_iff]
    omega
  · simp only [true_iff]
    omega

theorem walkDepth_top (root : parents pid < 0) (turns : Nat) : walkDepth parents turns pid = 0 := by
  induction turns with
  | zero => rfl
  | succ turns ih => rw [walkDepth, if_pos root, ih]

theorem walkDepth_link (link : parents pid = upper) (turns : Nat) :
    walkDepth parents (turns + 1) pid = walkDepth parents turns upper + 1 := by
  rw [walkDepth, if_neg (by omega), link, Int.toNat_natCast, Nat.add_comm]

theorem walkDepth_clamp (parents : Nat → Int) (turns pid : Nat) :
    walkDepth parents turns pid = min turns (walkDepth parents (turns + 1) pid) := by
  induction turns generalizing pid with
  | zero => simp [walkDepth]
  | succ turns ih =>
    rcases lt_or_ge (parents pid) 0 with root | below
    · simp [walkDepth_top root]
    · have link : parents pid = (parents pid).toNat := (Int.toNat_of_nonneg below).symm
      rw [walkDepth_link link, walkDepth_link link, ih]
      omega

theorem levelled (inside : ∀ pid < n, -1 ≤ parents pid ∧ parents pid < n)
    (positive : 0 < maxTreeDepth) :
    Levelled (laneDepth n maxTreeDepth parents) (linkOf n parents) maxTreeDepth where
  some_level := positive
  top := by
    intro node top
    unfold laneDepth
    split
    next within => exact walkDepth_top (linkOf_eq_none.mp top within) maxTreeDepth
    next => rfl
  below := by
    intro node upper link
    obtain ⟨within, parent⟩ := linkOf_eq_some.mp link
    have within' : upper < n := by
      have := inside node within
      omega
    obtain ⟨turns, rfl⟩ := Nat.exists_eq_add_one.mpr positive
    have clamp := walkDepth_clamp parents turns upper
    rw [laneDepth, laneDepth, if_pos within, if_pos within', walkDepth_link parent]
    omega

theorem lt_of_laneDepth_pos (low : 0 < laneDepth n maxTreeDepth parents pid) : pid < n := by
  by_contra outside
  rw [laneDepth, if_neg outside] at low
  exact absurd low (lt_irrefl 0)

theorem laneDepth_pos {depth : Nat} (level : laneDepth n maxTreeDepth parents pid = depth + 1) :
    0 < laneDepth n maxTreeDepth parents pid := by omega

end links

section passes

variable {n N maxTreeDepth depth : Nat} {tokens : Nat → Nat} {tree : DedupTensors}

/-- The forest of links and live nodes of a tree. -/
def standing (n : Nat) (tree : DedupTensors) : Standing Nat where
  parents := linkOf n tree.parents
  live := fun pid => pid < n → Live tree pid

/-- The score of a node. -/
def score (tree : DedupTensors) (pid : Nat) : Int := (tree.lps pid).value

/-- The invariant of the passes: the tree represents what has been merged, nodes that are left
have their log-probability, and keys fit. -/
structure Deduplicating (n N maxTreeDepth depth : Nat) (tokens : Nat → Nat)
    (tree current : DedupTensors) : Prop where
  represents : Represents (laneDepth n maxTreeDepth tree.parents) (linkOf n tree.parents) tokens
    (score tree) depth (standing n current)
  unchanged : ∀ pid < n, Live current pid → current.lps pid = tree.lps pid
  packable : Packable n N tokens current.parents

theorem FallingTree.scores_distinct (fallingTree : FallingTree n N tokens tree) :
    Distinct (laneDepth n maxTreeDepth tree.parents) (score tree) :=
  fun first second low low' same => fallingTree.distinct first (lt_of_laneDepth_pos low) second
    (lt_of_laneDepth_pos low') same

theorem FallingTree.signed (fallingTree : FallingTree n N tokens tree) {pid : Nat}
    (low : 0 < laneDepth n maxTreeDepth tree.parents pid) : (tree.lps pid).negative = true := by
  have within := lt_of_laneDepth_pos low
  cases link : linkOf n tree.parents pid with
  | none =>
    rw [laneDepth, if_pos within, walkDepth_top (linkOf_eq_none.mp link within)] at low
    exact absurd low (lt_irrefl 0)
  | some upper =>
    obtain ⟨_, parent⟩ := linkOf_eq_some.mp link
    have inside := fallingTree.packable.parent_inside pid within
    have less := Number.lt_iff.mp (fallingTree.falling pid within upper parent)
    have high := fallingTree.nonpositive upper (by omega)
    by_contra unsigned
    have positive : (tree.lps pid).value = (tree.lps pid).magnitude := by
      simp [Number.value, eq_false_of_ne_true unsigned]
    omega

/-- Links of nodes that have one are equal when the parents are. -/
theorem linkOf_eq_iff {parents : Nat → Int} {first second upper : Nat}
    (link : linkOf n parents first = some upper) (within : second < n) :
    linkOf n parents first = linkOf n parents second ↔ parents first = parents second := by
  obtain ⟨_, parent⟩ := linkOf_eq_some.mp link
  rw [link, eq_comm, linkOf_eq_some, parent]
  exact ⟨fun both => both.2.symm, fun same => ⟨within, same.symm⟩⟩

variable {current following : DedupTensors}

/-- At the depth of a pass the twins of a live node that are live are its siblings. -/
theorem Deduplicating.sibling_iff (fallingTree : FallingTree n N tokens tree)
    (positive : 0 < maxTreeDepth)
    (state : Deduplicating n N maxTreeDepth depth tokens tree current) {pid other : Nat} :
    Sibling (laneDepth n maxTreeDepth tree.parents) tokens (standing n current) (depth + 1) pid other ↔
      Twin n (depth + 1) tokens (laneDepth n maxTreeDepth tree.parents) current.parents pid other ∧
        Live current pid ∧ Live current other := by
  have levels := levelled fallingTree.packable.parent_inside positive
  constructor
  · intro sibling
    have within := lt_of_laneDepth_pos (laneDepth_pos sibling.level_eq)
    have within' := lt_of_laneDepth_pos (laneDepth_pos sibling.level_eq')
    obtain ⟨upper, link⟩ := levels.parent pid (laneDepth_pos sibling.level_eq)
    obtain ⟨best, now, _⟩ := state.represents.links pid upper link
    exact ⟨⟨⟨sibling.level_eq, within⟩, ⟨sibling.level_eq', within'⟩,
      (linkOf_eq_iff now within').mp sibling.parent, sibling.token_eq⟩,
      sibling.live within, sibling.live' within'⟩
  · rintro ⟨twin, live, live'⟩
    obtain ⟨upper, link⟩ := levels.parent pid (laneDepth_pos twin.at_d.1)
    obtain ⟨best, now, _⟩ := state.represents.links pid upper link
    exact ⟨twin.at_d.1, twin.at_d'.1, fun _ => live, fun _ => live',
      (linkOf_eq_iff now twin.at_d'.2).mpr twin.parent, twin.token⟩

theorem Deduplicating.lt_iff (state : Deduplicating n N maxTreeDepth depth tokens tree current)
    {first second : Nat} (within : first < n) (within' : second < n) (live : Live current first)
    (live' : Live current second) :
    current.lps first < current.lps second ↔ score tree first < score tree second := by
  rw [state.unchanged first within live, state.unchanged second within' live']
  exact Iff.rfl

theorem Deduplicating.beaten_iff (fallingTree : FallingTree n N tokens tree)
    (positive : 0 < maxTreeDepth)
    (state : Deduplicating n N maxTreeDepth depth tokens tree current) (pid : Nat) :
    Beaten (laneDepth n maxTreeDepth tree.parents) tokens (score tree) (standing n current) (depth + 1)
        pid ↔
      Outshone n (depth + 1) tokens (laneDepth n maxTreeDepth tree.parents) current pid := by
  constructor
  · rintro ⟨other, sibling, better⟩
    obtain ⟨twin, live, live'⟩ := (state.sibling_iff fallingTree positive).mp sibling
    have signed := fallingTree.signed (laneDepth_pos twin.at_d'.1)
    rw [← state.unchanged other twin.at_d'.2 live'] at signed
    exact ⟨live, other, twin, signed,
      (state.lt_iff twin.at_d.2 twin.at_d'.2 live live').mpr better⟩
  · rintro ⟨live, other, twin, _, less⟩
    have live' : Live current other := Number.ne_negInfinity_of_lt less
    exact ⟨other, (state.sibling_iff fallingTree positive).mpr ⟨twin, live, live'⟩,
      (state.lt_iff twin.at_d.2 twin.at_d'.2 live live').mp less⟩

theorem Deduplicating.pass (fallingTree : FallingTree n N tokens tree) (positive : 0 < maxTreeDepth)
    (state : Deduplicating n N maxTreeDepth depth tokens tree current)
    (merges : Merges n
      (Outshone n (depth + 1) tokens (laneDepth n maxTreeDepth tree.parents) current)
      (Heir n (depth + 1) tokens (laneDepth n maxTreeDepth tree.parents) current) current following) :
    Pass (laneDepth n maxTreeDepth tree.parents) tokens (score tree) (depth + 1) (standing n current)
      (standing n following) where
  struck := by
    intro pid
    rw [state.beaten_iff fallingTree positive]
    by_cases out : Outshone n (depth + 1) tokens (laneDepth n maxTreeDepth tree.parents) current pid
    · obtain ⟨_, _, twin, _⟩ := id out
      simp only [standing, Live, out, not_true, and_false, iff_false]
      exact fun alive => alive twin.at_d.2 (merges.lps_struck pid out)
    · simp only [standing, Live, merges.lps_kept pid out, out, not_false_eq_true, and_true]
  tops := by
    intro pid top
    refine linkOf_eq_none.mpr fun within => ?_
    have root := linkOf_eq_none.mp top within
    rw [merges.stayed pid fun ⟨_, parent, link, _⟩ => by omega]
    exact root
  stays := by
    intro pid upper now unbeaten
    rw [state.beaten_iff fallingTree positive] at unbeaten
    obtain ⟨within, parent⟩ := linkOf_eq_some.mp now
    refine linkOf_eq_some.mpr ⟨within, ?_⟩
    rw [merges.stayed pid, parent]
    rintro ⟨_, parent', link, out⟩
    obtain rfl : parent' = upper := by omega
    exact unbeaten out
  moves := by
    intro pid upper now beaten
    have out := (state.beaten_iff fallingTree positive upper).mp beaten
    obtain ⟨within, parent⟩ := linkOf_eq_some.mp now
    obtain ⟨winner, won, moved⟩ := merges.moved pid within upper parent out
    obtain ⟨live, rival, twin, signed, less⟩ := id out
    have live' : Live current winner :=
      Number.ne_negInfinity_of_lt (less.trans_le (won.greatest rival twin signed))
    refine ⟨winner, linkOf_eq_some.mpr ⟨within, moved⟩,
      (state.sibling_iff fallingTree positive).mpr ⟨won.member, live, live'⟩, ?_⟩
    intro other sibling
    obtain ⟨twin', _, other_live⟩ := (state.sibling_iff fallingTree positive).mp sibling
    have other_signed := fallingTree.signed (laneDepth_pos sibling.level_eq')
    rw [← state.unchanged other twin'.at_d'.2 other_live] at other_signed
    have least := won.greatest other twin' other_signed
    rw [state.unchanged other twin'.at_d'.2 other_live,
      state.unchanged winner won.member.at_d'.2 live'] at least
    exact least

theorem Deduplicating.load (fallingTree : FallingTree n N tokens tree) (positive : 0 < maxTreeDepth)
    (scratch : Nat → Int) :
    Deduplicating n N maxTreeDepth 0 tokens tree (loadRegisters n scratch tree).toDedupTensors where
  represents := by
    refine Represents.start (levelled fallingTree.packable.parent_inside positive) ?_ ?_
    · funext pid
      by_cases within : pid < n
      · simp [standing, linkOf, loadRegisters, within]
      · simp [standing, linkOf, within]
    · intro pid within
      simpa [Live, loadRegisters, within] using fallingTree.finite pid within
  unchanged := fun pid within _ => if_pos within
  packable := by
    have loaded (pid : Nat) (within : pid < n) :
        (loadRegisters n scratch tree).parents pid = tree.parents pid := if_pos within
    exact ⟨fallingTree.packable.covered, fallingTree.packable.room, fallingTree.packable.token_small,
      fun pid within => (loaded pid within).symm ▸ fallingTree.packable.parent_inside pid within⟩

theorem Deduplicating.step (fallingTree : FallingTree n N tokens tree) (positive : 0 < maxTreeDepth)
    (small : n ≤ 4294967295) {registers : DedupRegisters}
    (state : Deduplicating n N maxTreeDepth depth tokens tree registers.toDedupTensors) :
    Deduplicating n N maxTreeDepth (depth + 1) tokens tree
      (dedupPass n N (depth + 1) tokens (laneDepth n maxTreeDepth tree.parents)
        registers).toDedupTensors := by
  have levels := levelled fallingTree.packable.parent_inside positive
  have merges : Merges n
      (Outshone n (depth + 1) tokens (laneDepth n maxTreeDepth tree.parents) registers.toDedupTensors)
      (Heir n (depth + 1) tokens (laneDepth n maxTreeDepth tree.parents) registers.toDedupTensors)
      registers.toDedupTensors (dedupPass n N (depth + 1) tokens
        (laneDepth n maxTreeDepth tree.parents) registers).toDedupTensors :=
    dedupPass_merges registers state.packable small
  refine ⟨state.represents.step levels fallingTree.scores_distinct
    (state.pass fallingTree positive merges), ?_, ?_⟩
  · intro pid within alive
    by_cases out : Outshone n (depth + 1) tokens (laneDepth n maxTreeDepth tree.parents)
        registers.toDedupTensors pid
    · exact absurd (merges.lps_struck pid out) alive
    · have kept := merges.lps_kept pid out
      unfold Live at alive
      rw [kept] at alive ⊢
      exact state.unchanged pid within alive
  · exact merges.packable (fun _ _ won => (Winner.at_d won).2) state.packable

theorem Deduplicating.passes (fallingTree : FallingTree n N tokens tree) (positive : 0 < maxTreeDepth)
    (small : n ≤ 4294967295) (scratch : Nat → Int) (depth : Nat) :
    Deduplicating n N maxTreeDepth depth tokens tree
      (dedupPasses n N tokens (laneDepth n maxTreeDepth tree.parents) (loadRegisters n scratch tree)
        depth).toDedupTensors := by
  induction depth with
  | zero => exact Deduplicating.load fallingTree positive scratch
  | succ depth ih => exact ih.step fallingTree positive small

/-- Writing the lanes back keeps the forest and its live nodes. -/
theorem Deduplicating.stored {registers : DedupRegisters}
    (state : Deduplicating n N maxTreeDepth depth tokens tree registers.toDedupTensors) :
    Deduplicating n N maxTreeDepth depth tokens tree (storeRegisters n registers tree) := by
  have written (pid : Nat) (within : pid < n) :
      (storeRegisters n registers tree).parents pid = registers.parents pid ∧
        (storeRegisters n registers tree).lps pid = registers.lps pid :=
    ⟨if_pos within, if_pos within⟩
  have same : standing n (storeRegisters n registers tree) = standing n registers.toDedupTensors := by
    unfold standing linkOf Live
    congr 1
    · funext pid
      by_cases within : pid < n
      · simp [written pid within]
      · simp [within]
    · funext pid
      by_cases within : pid < n
      · simp [written pid within]
      · simp [within]
  refine ⟨same ▸ state.represents, ?_, ?_⟩
  · intro pid within alive
    unfold Live at alive
    rw [(written pid within).2] at alive ⊢
    exact state.unchanged pid within alive
  · exact ⟨state.packable.covered, state.packable.room, state.packable.token_small,
      fun pid within => (written pid within).1.symm ▸ state.packable.parent_inside pid within⟩

theorem Packable.small {parents : Nat → Int} (packable : Packable n N tokens parents) :
    n ≤ 4294967295 := by
  have room := packable.room
  unfold sentinelPacked at room
  by_contra large
  have high : (4294967296 : Int) * 4294967296 * 1 ≤ ((n : Int) + 1) * 4294967296 * (N + 1) :=
    Int.mul_le_mul (Int.mul_le_mul_of_nonneg_right (by omega) (by omega)) (by omega) (by omega)
      (Int.mul_nonneg (by omega) (by omega))
  omega

theorem Deduplicating.returned (fallingTree : FallingTree n (blockSize n) tokens tree)
    (positive : 0 < maxTreeDepth) (several : 1 < n) (scratch : Nat → Int) :
    Deduplicating n (blockSize n) maxTreeDepth maxTreeDepth tokens tree
      (dedupDepthByDepthTriton tokens n maxTreeDepth scratch tree) := by
  rw [dedupDepthByDepthTriton, if_neg (by omega), dbdDedupKernel]
  exact (Deduplicating.passes fallingTree positive fallingTree.packable.small scratch
    maxTreeDepth).stored

variable {final : DedupTensors}

theorem Deduplicating.original (state : Deduplicating n N maxTreeDepth depth tokens tree current)
    {pid parent : Nat} (within : pid < n) (link : current.parents pid = parent) :
    ∃ upper, linkOf n tree.parents pid = some upper := by
  cases original : linkOf n tree.parents pid with
  | none =>
    have top := linkOf_eq_none.mp (state.represents.tops pid original) within
    omega
  | some upper => exact ⟨upper, rfl⟩

theorem deeperThan_of_laneDepth {parents : Nat → Int} {pid upper : Nat}
    (link : linkOf n parents pid = some upper) (positive : 0 < maxTreeDepth)
    (deep : laneDepth n maxTreeDepth parents upper = maxTreeDepth) :
    DeeperThan maxTreeDepth parents pid := by
  obtain ⟨_, parent⟩ := linkOf_eq_some.mp link
  rw [laneDepth, if_pos (lt_of_laneDepth_pos (deep.symm ▸ positive))] at deep
  rw [DeeperThan, walkDepth_link parent, deep]

/-- After the last pass, live duplicates are deeper than the passes go and had different parents. -/
theorem Deduplicating.duplicates (fallingTree : FallingTree n N tokens tree)
    (positive : 0 < maxTreeDepth)
    (state : Deduplicating n N maxTreeDepth maxTreeDepth tokens tree final) {first second : Nat}
    (within : first < n) (within' : second < n) (live : Live final first) (live' : Live final second)
    (different : first ≠ second) {parent : Nat} (link : final.parents first = parent)
    (link' : final.parents second = parent) (token : tokens first = tokens second) :
    DeeperThan maxTreeDepth tree.parents first ∧ tree.parents first ≠ tree.parents second := by
  obtain ⟨upper, above⟩ := state.original within link
  obtain ⟨upper', above'⟩ := state.original within' link'
  have together : (standing n final).parents first = (standing n final).parents second :=
    (linkOf_eq_some.mpr ⟨within, link⟩).trans (linkOf_eq_some.mpr ⟨within', link'⟩).symm
  rcases state.represents.separate (levelled fallingTree.packable.parent_inside positive)
    fallingTree.scores_distinct (fun _ => live) (fun _ => live') above above' together token with
    same | ⟨deep, apart⟩
  · exact absurd same different
  · refine ⟨deeperThan_of_laneDepth above positive deep, fun equal => apart ?_⟩
    have parent' := (linkOf_eq_some.mp above).2
    have parent'' := (linkOf_eq_some.mp above').2
    omega

/-- Live nodes hang under live nodes with greater log-probabilities. -/
theorem Deduplicating.parent_live (fallingTree : FallingTree n N tokens tree)
    (state : Deduplicating n N maxTreeDepth depth tokens tree final) {pid parent : Nat}
    (within : pid < n) (live : Live final pid) (link : final.parents pid = parent) :
    parent < n ∧ Live final parent ∧ final.lps pid < final.lps parent := by
  have inside := state.packable.parent_inside pid within
  have within' : parent < n := by omega
  obtain ⟨alive, upper, above, better⟩ :=
    state.represents.parent_live (linkOf_eq_some.mpr ⟨within, link⟩)
  have falling := fallingTree.falling pid within upper (linkOf_eq_some.mp above).2
  refine ⟨within', alive within', (state.lt_iff within within' live (alive within')).mpr ?_⟩
  exact (Number.lt_iff.mp falling).trans_le better

theorem finite_below (n maxTreeDepth : Nat) (parents : Nat → Int) :
    {node | 0 < laneDepth n maxTreeDepth parents node}.Finite :=
  (Finset.range n).finite_toSet.subset
    fun _ low => Finset.mem_coe.mpr (Finset.mem_range.mpr (lt_of_laneDepth_pos low))

/-- The live nodes of a tree that represents what has been merged spell the branches of the original
tree, whatever the score. -/
theorem branches_of_represents {L : Type} [LinearOrder L] {score : Nat → L}
    (levels : Levelled (laneDepth n maxTreeDepth tree.parents) (linkOf n tree.parents) maxTreeDepth)
    (finite : ∀ pid < n, Live tree pid)
    (represents : Represents (laneDepth n maxTreeDepth tree.parents) (linkOf n tree.parents) tokens
      score depth (standing n final)) : branches n tokens final = branches n tokens tree := by
  ext branch
  constructor
  · rintro ⟨pid, within, _, spelled⟩
    exact ⟨pid, within, finite pid within, (represents.spells_iff levels).mp spelled⟩
  · rintro ⟨pid, within, _, spelled⟩
    obtain ⟨best, chosen⟩ : ∃ best, Best (laneDepth n maxTreeDepth tree.parents)
        (linkOf n tree.parents) tokens score depth pid best :=
      exists_best levels (finite_below n maxTreeDepth tree.parents) pid
    have within' : best < n := by
      rcases Nat.eq_zero_or_pos (laneDepth n maxTreeDepth tree.parents pid) with high | low
      · have same : pid = best := (merged_iff_of_le high.le (Nat.zero_le depth)).mp chosen.merged
        exact same ▸ within
      · exact lt_of_laneDepth_pos (Nat.lt_of_lt_of_eq low chosen.merged.level_eq)
    exact ⟨best, within', (represents.left best).mpr chosen.self within',
      represents.spells_of_merged levels spelled chosen.merged⟩

theorem Deduplicating.branches_eq (fallingTree : FallingTree n N tokens tree)
    (positive : 0 < maxTreeDepth)
    (state : Deduplicating n N maxTreeDepth depth tokens tree final) :
    branches n tokens final = branches n tokens tree :=
  branches_of_represents (levelled fallingTree.packable.parent_inside positive) fallingTree.finite
    state.represents

end passes

/-- De-duplication of a tree with falling log-probabilities: live nodes that share a token under
one parent lie below the last depth and had different parents, live nodes hang under live nodes
with greater log-probabilities, and the branches are those of the original tree. -/
theorem dedupDepthByDepthTriton_branches {n maxTreeDepth : Nat} {tokens : Nat → Nat}
    {tree : DedupTensors} (scratch : Nat → Int)
    (fallingTree : FallingTree n (blockSize n) tokens tree) (positive : 0 < maxTreeDepth) :
    let result := dedupDepthByDepthTriton tokens n maxTreeDepth scratch tree
    (∀ first < n, ∀ second < n, Live result first → Live result second → first ≠ second →
      ∀ parent : Nat, result.parents first = parent → result.parents second = parent →
        tokens first = tokens second →
        DeeperThan maxTreeDepth tree.parents first ∧ DeeperThan maxTreeDepth tree.parents second ∧
          tree.parents first ≠ tree.parents second) ∧
    (∀ pid < n, Live result pid → ∀ parent : Nat, result.parents pid = parent →
      parent < n ∧ Live result parent ∧ result.lps pid < result.lps parent) ∧
    branches n tokens result = branches n tokens tree := by
  intro result
  by_cases few : n ≤ 1
  · have same : result = tree := if_pos few
    rw [same]
    refine ⟨?_, ?_, rfl⟩
    · intro first within second within' _ _ different
      omega
    · intro pid within _ parent link
      have inside := fallingTree.packable.parent_inside pid within
      exact ⟨by omega, fallingTree.finite parent (by omega), fallingTree.falling pid within parent link⟩
  · have state : Deduplicating n (blockSize n) maxTreeDepth maxTreeDepth tokens tree result :=
      Deduplicating.returned fallingTree positive (by omega) scratch
    refine ⟨?_, ?_, state.branches_eq fallingTree positive⟩
    · intro first within second within' live live' different parent link link' token
      obtain ⟨deep, apart⟩ := state.duplicates fallingTree positive within within' live live'
        different link link' token
      obtain ⟨deep', _⟩ := state.duplicates fallingTree positive within' within live' live
        different.symm link' link token.symm
      exact ⟨deep, deep', apart⟩
    · exact fun pid within live parent link => state.parent_live fallingTree within live link

/-- A chain of three nodes over two nodes with one token, each with one child of one token. -/
def cousins : DedupTensors where
  parents := fun pid => [-1, 0, 1, 2, 2, 3, 4].getD pid (-1)
  lps := fun pid =>
    [.minus 1, .minus 2, .minus 3, .minus 4, .minus 5, .minus 6, .minus 7].getD pid .negInfinity
  realLps := none

/-- The tokens of the cousins. -/
def cousinTokens (pid : Nat) : Nat := [10, 11, 12, 13, 13, 14, 14].getD pid 0

theorem cousins_falling : FallingTree 7 (blockSize 7) cousinTokens cousins where
  packable := ⟨by decide, by decide, by decide, by decide⟩
  finite := by decide
  nonpositive := by decide
  distinct := by decide
  falling := by
    have falling : ∀ pid < 7, 0 ≤ cousins.parents pid →
        cousins.lps pid < cousins.lps (cousins.parents pid).toNat := by decide
    intro pid within parent link
    have below := falling pid within (by omega)
    rwa [link, Int.toNat_natCast] at below

/-- The branches of the cousins survive three passes. -/
theorem dedupDepthByDepthTriton_branches_cousins :
    branches 7 cousinTokens (dedupDepthByDepthTriton cousinTokens 7 3 (fun _ => 0) cousins) =
      branches 7 cousinTokens cousins :=
  (dedupDepthByDepthTriton_branches (fun _ => 0) cousins_falling (by decide)).2.2

/-- Three passes merge the parents of the cousins, and leave two live nodes with one token under
one parent. -/
theorem cousins_stay :
    FallingTree 7 (blockSize 7) cousinTokens cousins ∧
      ∃ first < 7, ∃ second < 7, first ≠ second ∧
        Live (dedupDepthByDepthTriton cousinTokens 7 3 (fun _ => 0) cousins) first ∧
        Live (dedupDepthByDepthTriton cousinTokens 7 3 (fun _ => 0) cousins) second ∧
        (dedupDepthByDepthTriton cousinTokens 7 3 (fun _ => 0) cousins).parents first = 3 ∧
        (dedupDepthByDepthTriton cousinTokens 7 3 (fun _ => 0) cousins).parents second = 3 ∧
        cousinTokens first = cousinTokens second := by
  have live : ∀ pid ∈ [5, 6],
      (dedupDepthByDepthTriton cousinTokens 7 3 (fun _ => 0) cousins).lps pid ≠ .negInfinity := by
    decide +kernel
  have parents : ∀ pid ∈ [5, 6],
      (dedupDepthByDepthTriton cousinTokens 7 3 (fun _ => 0) cousins).parents pid = 3 := by
    decide +kernel
  exact ⟨cousins_falling, 5, by decide, 6, by decide, by decide, live 5 (by decide),
    live 6 (by decide), parents 5 (by decide), parents 6 (by decide), by decide⟩

end SpecBlock.Building
