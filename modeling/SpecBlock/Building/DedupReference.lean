import SpecBlock.Building.DedupBranches

/-!
# The reference of de-duplication

`dedup_depth_by_depth` groups the nodes of a depth by parent and token, strikes out live nodes
below the greatest of their group, and moves the children of struck-out nodes to the first node
of the group that is not struck out. A node that was dead before is never struck out, so it
counts as a survivor, and zeros of either sign are as great as each other.

The kernel moves children to the first of the greatest, and passes over positive zeros. On one
tree, passes of the two therefore part ways exactly where a positive zero is above the best
signed number of a group, or where a struck-out node with children has a dead duplicate, or a
positive zero, before the winner.
-/

namespace SpecBlock.Building

open FloatBits

/-- The links from `cur` to the root, as far as the walk goes. -/
def referenceDepth (parents : Nat → Int) : Nat → Nat → Nat
  | 0, _ => 0
  | turns + 1, cur =>
    if parents cur < 0 then 0 else 1 + referenceDepth parents turns (parents cur).toNat

/-- `depths` of the reference: a tensor with an entry for every node. -/
def referenceDepths (n maxWalk : Nat) (parents : Nat → Int) (node : Nat) : Nat :=
  if node < n then referenceDepth parents maxWalk node else 0

section pass

variable (n depth : Nat) (tokens depths : Nat → Nat) (tree : DedupTensors)

/-- `at_d`. -/
def atDepth : List Nat := (List.range n).filter (fun node => depths node = depth)

/-- `unique_k`: the distinct keys of the depth in rising order. -/
def uniqueKeys : List Int :=
  (((atDepth n depth depths).map (dedupKey tokens tree.parents)).dedup).insertionSort (· ≤ ·)

/-- `inverse`: the position of a node's key. -/
def groupOf (node : Nat) : Nat :=
  (uniqueKeys n depth tokens depths tree).idxOf (dedupKey tokens tree.parents node)

/-- The nodes of a group. -/
def groupNodes (group : Nat) : List Nat :=
  (atDepth n depth depths).filter (fun node => groupOf n depth tokens depths tree node = group)

/-- `gmax`: the greatest log-probability of a group. -/
def groupMax (group : Nat) : Number :=
  (groupNodes n depth tokens depths tree group).foldl
    (fun greatest node => if greatest < tree.lps node then tree.lps node else greatest) .negInfinity

/-- `local_to_mask`. -/
def localToMask (node : Nat) : Prop :=
  tree.lps node < groupMax n depth tokens depths tree (groupOf n depth tokens depths tree node) ∧
    tree.lps node ≠ .negInfinity

instance (node : Nat) : Decidable (localToMask n depth tokens depths tree node) :=
  inferInstanceAs (Decidable (_ ∧ _))

/-- `survivor`: the node itself when it is not masked. -/
def survivor (node : Nat) : Nat := if localToMask n depth tokens depths tree node then n else node

/-- `gw`: the first survivor of a group. -/
def groupWinner (group : Nat) : Nat :=
  (groupNodes n depth tokens depths tree group).foldl
    (fun first node => min first (survivor n depth tokens depths tree node)) n

/-- `masked_at_d`. -/
def maskedAtDepth : List Nat :=
  (atDepth n depth depths).filter (fun node => localToMask n depth tokens depths tree node)

/-- One turn of the loop over the depths. -/
def referencePass : DedupTensors :=
  let masked := maskedAtDepth n depth tokens depths tree
  if atDepth n depth depths = [] then tree
  else
    { parents := fun node =>
        let parent := tree.parents node
        if node < n ∧ 0 ≤ parent ∧ parent.toNat ∈ masked then
          groupWinner n depth tokens depths tree (groupOf n depth tokens depths tree parent.toNat)
        else parent
      lps := fun node => if node ∈ masked then .negInfinity else tree.lps node
      realLps := tree.realLps.map (fun realLps node =>
        if node ∈ masked then .negInfinity else realLps node) }

end pass

/-- The tree after the turns for the first depths. -/
def referencePasses (n : Nat) (tokens depths : Nat → Nat) (tree : DedupTensors) :
    Nat → DedupTensors
  | 0 => tree
  | depth + 1 =>
    referencePass n (depth + 1) tokens depths (referencePasses n tokens depths tree depth)

/-- `max_d`. -/
def deepest (n : Nat) (depths : Nat → Nat) : Nat :=
  (List.range n).foldl (fun deepest node => max deepest (depths node)) 0

/-- `dedup_depth_by_depth`. The reference stops at the deepest node, where the kernel always makes
as many passes as a tree may be deep. -/
def dedupDepthByDepth (tokens : Nat → Nat) (n maxWalk : Nat) (tree : DedupTensors) : DedupTensors :=
  if n ≤ 1 then tree
  else
    let depths := referenceDepths n maxWalk tree.parents
    referencePasses n tokens depths tree (deepest n depths)

section passSpec

variable {n N depth : Nat} {tokens depths : Nat → Nat} {tree : DedupTensors}

/-- A live node is overtaken when a twin is greater. -/
def Overtaken (n depth : Nat) (tokens depths : Nat → Nat) (tree : DedupTensors) (pid : Nat) : Prop :=
  tree.lps pid ≠ .negInfinity ∧
    ∃ other, Twin n depth tokens depths tree.parents pid other ∧ tree.lps pid < tree.lps other

/-- The first of the twins that are not overtaken. -/
structure FirstSurvivor (n depth : Nat) (tokens depths : Nat → Nat) (tree : DedupTensors)
    (pid winner : Nat) : Prop where
  member : Twin n depth tokens depths tree.parents pid winner
  survives : ¬Overtaken n depth tokens depths tree winner
  earliest : ∀ other, Twin n depth tokens depths tree.parents pid other →
    ¬Overtaken n depth tokens depths tree other → winner ≤ other

theorem mem_atDepth {node : Nat} : node ∈ atDepth n depth depths ↔ IsAtD n depth depths node := by
  simp [atDepth, IsAtD, and_comm]

theorem mem_groupNodes (packable : Packable n N tokens tree.parents) {node other : Nat}
    (here : IsAtD n depth depths node) :
    other ∈ groupNodes n depth tokens depths tree (groupOf n depth tokens depths tree node) ↔
      Twin n depth tokens depths tree.parents node other := by
  have listed : dedupKey tokens tree.parents node ∈ uniqueKeys n depth tokens depths tree := by
    unfold uniqueKeys
    rw [(List.perm_insertionSort _ _).mem_iff, List.mem_dedup]
    exact List.mem_map_of_mem (mem_atDepth.mpr here)
  have groups (inside : other < n) :
      groupOf n depth tokens depths tree node = groupOf n depth tokens depths tree other ↔
        tree.parents node = tree.parents other ∧ tokens node = tokens other :=
    (List.idxOf_inj listed).trans (packable.key_eq_iff here.2 inside)
  unfold groupNodes
  rw [List.mem_filter, mem_atDepth, decide_eq_true_iff]
  constructor
  · rintro ⟨here', same⟩
    have alike := (groups here'.2).mp same.symm
    exact ⟨here, here', alike.1, alike.2⟩
  · exact fun twin => ⟨twin.at_d', ((groups twin.at_d'.2).mpr ⟨twin.parent, twin.token⟩).symm⟩

/-- A number is below the greatest of some numbers when it is below one of them. -/
theorem lt_foldl_greatest (nodes : List Nat) (lps : Nat → Number) (lp start : Number) :
    lp < nodes.foldl (fun greatest node => if greatest < lps node then lps node else greatest) start ↔
      lp < start ∨ ∃ node ∈ nodes, lp < lps node := by
  induction nodes generalizing start with
  | nil => simp
  | cons node nodes ih =>
    have first : lp < (if start < lps node then lps node else start) ↔
        lp < start ∨ lp < lps node := by
      split
      next greater => exact ⟨.inr, fun either => either.elim (fun less => less.trans greater) id⟩
      next least =>
        refine ⟨.inl, fun either => either.elim id fun less => ?_⟩
        rw [Number.lt_iff] at least less ⊢
        omega
    rw [List.foldl_cons, ih, first]
    simp [or_assoc]

theorem localToMask_iff (packable : Packable n N tokens tree.parents) {node : Nat}
    (here : IsAtD n depth depths node) :
    localToMask n depth tokens depths tree node ↔ Overtaken n depth tokens depths tree node := by
  have bottom : ¬tree.lps node < .negInfinity := not_lt_of_ge (Number.negInfinity_le _)
  unfold localToMask groupMax
  rw [lt_foldl_greatest]
  constructor
  · rintro ⟨below | ⟨other, grouped, less⟩, alive⟩
    · exact absurd below bottom
    · exact ⟨alive, other, (mem_groupNodes packable here).mp grouped, less⟩
  · rintro ⟨alive, other, twin, less⟩
    exact ⟨.inr ⟨other, (mem_groupNodes packable here).mpr twin, less⟩, alive⟩

theorem mem_maskedAtDepth (packable : Packable n N tokens tree.parents) {node : Nat} :
    node ∈ maskedAtDepth n depth tokens depths tree ↔ Overtaken n depth tokens depths tree node := by
  unfold maskedAtDepth
  rw [List.mem_filter, mem_atDepth, decide_eq_true_iff]
  constructor
  · exact fun both => (localToMask_iff packable both.1).mp both.2
  · intro upper
    obtain ⟨_, _, twin, _⟩ := id upper
    exact ⟨twin.at_d, (localToMask_iff packable twin.at_d).mpr upper⟩

/-- A running minimum is its start or one of the values, and none is below it. -/
theorem foldl_min_spec (nodes : List Nat) (value : Nat → Nat) (start : Nat) :
    (nodes.foldl (fun least node => min least (value node)) start = start ∨
        ∃ node ∈ nodes, nodes.foldl (fun least node => min least (value node)) start = value node) ∧
      nodes.foldl (fun least node => min least (value node)) start ≤ start ∧
      ∀ node ∈ nodes, nodes.foldl (fun least node => min least (value node)) start ≤ value node :=
  foldl_max_spec (K := Natᵒᵈ) nodes value start

theorem exists_greatest_twin {pid : Nat} (here : IsAtD n depth depths pid) :
    ∃ top, Twin n depth tokens depths tree.parents pid top ∧
      ∀ other, Twin n depth tokens depths tree.parents pid other → tree.lps other ≤ tree.lps top := by
  have finite : {other | Twin n depth tokens depths tree.parents pid other}.Finite :=
    (Finset.range n).finite_toSet.subset
      fun other twin => Finset.mem_coe.mpr (Finset.mem_range.mpr twin.at_d'.2)
  obtain ⟨top, member, greatest⟩ :=
    Set.exists_max_image _ (fun other => (tree.lps other).value) finite ⟨pid, here, here, rfl, rfl⟩
  exact ⟨top, member, greatest⟩

theorem Twin.trans {parents : Nat → Int} {first second third : Nat}
    (twin : Twin n depth tokens depths parents first second)
    (further : Twin n depth tokens depths parents second third) :
    Twin n depth tokens depths parents first third :=
  ⟨twin.at_d, further.at_d', twin.parent.trans further.parent, twin.token.trans further.token⟩

theorem not_overtaken_of_greatest {pid top : Nat}
    (twin : Twin n depth tokens depths tree.parents pid top)
    (greatest : ∀ other, Twin n depth tokens depths tree.parents pid other →
      tree.lps other ≤ tree.lps top) : ¬Overtaken n depth tokens depths tree top := by
  rintro ⟨_, other, twin', less⟩
  exact absurd less (not_lt_of_ge (greatest other (twin.trans twin')))

/-- The winner of a group is the first of the twins that are not overtaken. -/
theorem groupWinner_spec (packable : Packable n N tokens tree.parents) {node : Nat}
    (here : IsAtD n depth depths node) :
    FirstSurvivor n depth tokens depths tree node
      (groupWinner n depth tokens depths tree (groupOf n depth tokens depths tree node)) := by
  obtain ⟨reached, _, least⟩ := foldl_min_spec
    (groupNodes n depth tokens depths tree (groupOf n depth tokens depths tree node))
    (survivor n depth tokens depths tree) n
  have survives {other : Nat} (twin : Twin n depth tokens depths tree.parents node other)
      (kept : ¬Overtaken n depth tokens depths tree other) :
      survivor n depth tokens depths tree other = other :=
    if_neg (mt (localToMask_iff packable twin.at_d').mp kept)
  have early {other : Nat} (twin : Twin n depth tokens depths tree.parents node other)
      (kept : ¬Overtaken n depth tokens depths tree other) :
      groupWinner n depth tokens depths tree (groupOf n depth tokens depths tree node) ≤ other := by
    have bound := least other ((mem_groupNodes packable here).mpr twin)
    rwa [survives twin kept] at bound
  obtain ⟨top, twin, greatest⟩ : ∃ top, Twin n depth tokens depths tree.parents node top ∧
      ∀ other, Twin n depth tokens depths tree.parents node other → tree.lps other ≤ tree.lps top :=
    exists_greatest_twin here
  have inside := early twin (not_overtaken_of_greatest twin greatest)
  have within := twin.at_d'.2
  unfold groupWinner at inside early ⊢
  rcases reached with bound | ⟨winner, grouped, same⟩
  · omega
  · have twin' := (mem_groupNodes packable here).mp grouped
    have kept : ¬Overtaken n depth tokens depths tree winner := by
      intro upper
      rw [survivor, if_pos ((localToMask_iff packable twin'.at_d').mpr upper)] at same
      omega
    rw [same, survives twin' kept] at early ⊢
    exact ⟨twin', kept, fun other twin'' kept' => early twin'' kept'⟩

theorem referencePass_merges (packable : Packable n N tokens tree.parents) :
    Merges n (Overtaken n depth tokens depths tree) (FirstSurvivor n depth tokens depths tree) tree
      (referencePass n depth tokens depths tree) := by
  unfold referencePass
  split
  next empty =>
    refine Merges.refl (fun pid upper => ?_) tree
    obtain ⟨_, _, twin, _⟩ := upper
    have member := mem_atDepth.mpr twin.at_d
    rw [empty] at member
    cases member
  next =>
    have masked (pid : Nat) : pid ∈ maskedAtDepth n depth tokens depths tree ↔
        Overtaken n depth tokens depths tree pid := mem_maskedAtDepth packable
    have tested (pid : Nat) : decide (pid ∈ maskedAtDepth n depth tokens depths tree) = true ↔
        Overtaken n depth tokens depths tree pid := decide_eq_true_iff.trans (masked pid)
    have heirs (pid : Nat) (upper : Overtaken n depth tokens depths tree pid) :
        ∃ winner : Nat, FirstSurvivor n depth tokens depths tree pid winner ∧
          (groupWinner n depth tokens depths tree (groupOf n depth tokens depths tree pid) : Int) =
            winner := by
      obtain ⟨_, _, twin, _⟩ := upper
      exact ⟨_, groupWinner_spec packable twin.at_d, rfl⟩
    refine Merges.of_tests _ _ tested heirs ?_ ?_ ?_
    · intro pid
      simp only [decide_eq_true_iff]
    · intro pid
      simp only [decide_eq_true_iff]
    · simp only [decide_eq_true_iff]

end passSpec

section agreement

variable {n N depth : Nat} {tokens depths : Nat → Nat} {tree kernel reference : DedupTensors}

/-- Kernel and reference agree on a pass: a node that a twin is greater than has a greater twin
with the sign bit set, and the winner of a struck-out node with children comes before its dead
twins and its twins without the sign bit. -/
structure Agrees (n depth : Nat) (tokens depths : Nat → Nat) (tree : DedupTensors) : Prop where
  signed : ∀ pid, Overtaken n depth tokens depths tree pid → Outshone n depth tokens depths tree pid
  ahead : ∀ pid < n, ∀ parent : Nat, tree.parents pid = parent →
    Outshone n depth tokens depths tree parent →
      ∀ winner, Heir n depth tokens depths tree parent winner →
        ∀ other, Twin n depth tokens depths tree.parents parent other →
          tree.lps other = .negInfinity ∨ (tree.lps other).negative = false → winner < other

theorem Outshone.overtaken {pid : Nat} (out : Outshone n depth tokens depths tree pid) :
    Overtaken n depth tokens depths tree pid := by
  obtain ⟨alive, other, twin, _, less⟩ := out
  exact ⟨alive, other, twin, less⟩

/-- Trees are equal when their parents and log-probabilities are, node by node. -/
theorem DedupTensors.ext_nodes {first second : DedupTensors}
    (parents : ∀ pid, first.parents pid = second.parents pid)
    (lps : ∀ pid, first.lps pid = second.lps pid)
    (realLps : ∀ pid, first.realLps.map (fun realLps => realLps pid) =
      second.realLps.map (fun realLps => realLps pid)) : first = second := by
  obtain ⟨parents₁, lps₁, real₁⟩ := first
  obtain ⟨parents₂, lps₂, real₂⟩ := second
  obtain rfl : parents₁ = parents₂ := funext parents
  obtain rfl : lps₁ = lps₂ := funext lps
  have same : real₁ = real₂ := by
    cases real₁ with
    | none =>
      cases real₂ with
      | none => rfl
      | some real₂ => exact absurd (realLps 0) (by simp)
    | some real₁ =>
      cases real₂ with
      | none => exact absurd (realLps 0) (by simp)
      | some real₂ =>
        congr 1
        funext pid
        exact Option.some.inj (realLps pid)
  rw [same]

/-- A number that is not positive and has no sign bit is zero. -/
theorem value_of_unsigned {lp : Number} (nonpositive : lp.value ≤ 0) (unsigned : lp.negative = false) :
    lp.value = 0 := by
  unfold Number.value at nonpositive ⊢
  simp only [unsigned, Bool.false_eq_true, if_false] at nonpositive ⊢
  omega

/-- Where the struck-out nodes are the same, the heirs of one of them are the same when the
winner comes before its dead twins and its twins without the sign bit. -/
theorem heirs_eq_iff (nonpositive : ∀ pid < n, (tree.lps pid).value ≤ 0)
    (signed : ∀ pid, Overtaken n depth tokens depths tree pid →
      Outshone n depth tokens depths tree pid) {parent winner first : Nat}
    (out : Outshone n depth tokens depths tree parent)
    (heir : Heir n depth tokens depths tree parent winner)
    (survivor : FirstSurvivor n depth tokens depths tree parent first) :
    winner = first ↔ ∀ other, Twin n depth tokens depths tree.parents parent other →
      tree.lps other = .negInfinity ∨ (tree.lps other).negative = false → winner < other := by
  obtain ⟨_, rival, twin, sign, less⟩ := id out
  have live := Number.ne_negInfinity_of_lt (less.trans_le (heir.greatest rival twin sign))
  have survives : ¬Overtaken n depth tokens depths tree winner := by
    intro upper
    obtain ⟨_, higher, twin', sign', above⟩ := signed winner upper
    exact absurd above (not_lt_of_ge (heir.greatest higher (heir.member.trans twin') sign'))
  have order := survivor.earliest winner heir.member survives
  constructor
  · rintro rfl other twin' barred
    have kept : ¬Overtaken n depth tokens depths tree other := by
      rintro ⟨alive, higher, twin'', above⟩
      rcases barred with dead | unsigned
      · exact alive dead
      · have zero := value_of_unsigned (nonpositive other twin'.at_d'.2) unsigned
        have high := nonpositive higher twin''.at_d'.2
        rw [Number.lt_iff] at above
        omega
    refine (survivor.earliest other twin' kept).lt_of_ne ?_
    rintro rfl
    rcases barred with dead | unsigned
    · exact live dead
    · exact Bool.false_ne_true (unsigned.symm.trans heir.signed)
  · intro ahead
    refine Nat.le_antisymm ?_ order
    by_cases barred : tree.lps first = .negInfinity ∨ (tree.lps first).negative = false
    · exact (ahead first survivor.member barred).le
    · rw [not_or] at barred
      have twin' : Twin n depth tokens depths tree.parents first winner :=
        ⟨survivor.member.at_d', heir.member.at_d',
          survivor.member.parent.symm.trans heir.member.parent,
          survivor.member.token.symm.trans heir.member.token⟩
      refine heir.earliest first survivor.member (eq_true_of_ne_false barred.2) ?_
      have kept : ¬tree.lps first < tree.lps winner :=
        fun above => survivor.survives ⟨barred.1, winner, twin', above⟩
      rw [Number.lt_iff] at kept
      rw [Number.le_iff]
      omega

/-- A pass of the kernel and one of the reference leave the same tree exactly when they agree. -/
theorem agrees_iff (nonpositive : ∀ pid < n, (tree.lps pid).value ≤ 0)
    (merges : Merges n (Outshone n depth tokens depths tree) (Heir n depth tokens depths tree)
      tree kernel)
    (merges' : Merges n (Overtaken n depth tokens depths tree)
      (FirstSurvivor n depth tokens depths tree) tree reference) :
    kernel = reference ↔ Agrees n depth tokens depths tree := by
  constructor
  · rintro rfl
    have signed (pid : Nat) (upper : Overtaken n depth tokens depths tree pid) :
        Outshone n depth tokens depths tree pid := by
      by_contra kept
      exact upper.1 ((merges.lps_kept pid kept).symm.trans (merges'.lps_struck pid upper))
    refine ⟨signed, ?_⟩
    intro pid inside parent link out winner heir
    obtain ⟨winner', heir', now⟩ := merges.moved pid inside parent link out
    obtain ⟨first, survivor, now'⟩ := merges'.moved pid inside parent link out.overtaken
    obtain rfl : winner' = first := by omega
    obtain rfl : winner = winner' := Nat.le_antisymm
      (heir.earliest winner' heir'.member heir'.signed
        (heir'.greatest winner heir.member heir.signed))
      (heir'.earliest winner heir.member heir.signed
        (heir.greatest winner' heir'.member heir'.signed))
    exact (heirs_eq_iff nonpositive signed out heir survivor).mp rfl
  · intro agrees
    have same (pid : Nat) : Outshone n depth tokens depths tree pid ↔
        Overtaken n depth tokens depths tree pid := ⟨Outshone.overtaken, agrees.signed pid⟩
    apply DedupTensors.ext_nodes
    · intro pid
      by_cases moves : pid < n ∧ ∃ parent : Nat, tree.parents pid = parent ∧
          Outshone n depth tokens depths tree parent
      · obtain ⟨inside, parent, link, out⟩ := moves
        obtain ⟨winner, heir, now⟩ := merges.moved pid inside parent link out
        obtain ⟨first, survivor, now'⟩ := merges'.moved pid inside parent link out.overtaken
        have equal := (heirs_eq_iff nonpositive agrees.signed out heir survivor).mpr
          (agrees.ahead pid inside parent link out winner heir)
        rw [now, now', equal]
      · rw [merges.stayed pid moves, merges'.stayed pid]
        rintro ⟨inside, parent, link, upper⟩
        exact moves ⟨inside, parent, link, agrees.signed parent upper⟩
    · intro pid
      by_cases out : Outshone n depth tokens depths tree pid
      · rw [merges.lps_struck pid out, merges'.lps_struck pid out.overtaken]
      · rw [merges.lps_kept pid out, merges'.lps_kept pid (mt (same pid).mpr out)]
    · intro pid
      by_cases out : Outshone n depth tokens depths tree pid
      · rw [merges.real_struck pid out, merges'.real_struck pid out.overtaken]
      · rw [merges.real_kept pid out, merges'.real_kept pid (mt (same pid).mpr out)]

end agreement

end SpecBlock.Building
