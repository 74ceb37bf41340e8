import SpecBlock.Building.DedupReference

/-!
# When the fused de-duplication equals its reference

Kernel and reference run one pass after the other over the depths of a tree. A pass writes the
log-probabilities of its depth and the parents of the nodes one depth below, which no other pass
writes. So once the two have parted they never meet again, and they return the same tree exactly
when they agree on every pass.
-/

namespace SpecBlock.Building

open FloatBits

section runs

variable {n N last : Nat} {tokens depths : Nat → Nat} {tree : DedupTensors}

/-- Links lead one depth up. -/
def Layered (n : Nat) (depths : Nat → Nat) (parents : Nat → Int) : Prop :=
  ∀ pid < n, ∀ parent : Nat, parents pid = parent → depths parent + 1 = depths pid

/-- Passes one depth after the other that strike nodes of their depth out and move children to
nodes of their depth. -/
structure PassRun (n : Nat) (depths : Nat → Nat) (run : Nat → DedupTensors) : Prop where
  layered : Layered n depths (run 0).parents
  passes : ∀ depth, ∃ struck heir, Merges n struck heir (run depth) (run (depth + 1)) ∧
    (∀ pid, struck pid → IsAtD n (depth + 1) depths pid) ∧
    ∀ pid winner, heir pid winner → IsAtD n (depth + 1) depths winner

theorem PassRun.layered_all {run : Nat → DedupTensors} (passRun : PassRun n depths run) (depth : Nat) :
    Layered n depths (run depth).parents := by
  induction depth with
  | zero => exact passRun.layered
  | succ depth ih =>
    obtain ⟨struck, heir, merges, here, here'⟩ := passRun.passes depth
    intro pid inside parent link
    by_cases moves : ∃ former : Nat, (run depth).parents pid = former ∧ struck former
    · obtain ⟨former, link', out⟩ := moves
      obtain ⟨winner, won, now⟩ := merges.moved pid inside former link' out
      obtain rfl : winner = parent := by omega
      rw [(here' former winner won).1, ← (here former out).1]
      exact ih pid inside former link'
    · rw [merges.stayed pid fun both => moves both.2] at link
      exact ih pid inside parent link

/-- A pass leaves the log-probabilities of other depths alone, and the parents of nodes that are
not one depth below. -/
theorem PassRun.frame {run : Nat → DedupTensors} (passRun : PassRun n depths run) (depth pid : Nat) :
    (depths pid ≠ depth + 1 → (run (depth + 1)).lps pid = (run depth).lps pid ∧
      (run (depth + 1)).realLps.map (fun realLps => realLps pid) =
        (run depth).realLps.map (fun realLps => realLps pid)) ∧
    (depths pid ≠ depth + 2 → (run (depth + 1)).parents pid = (run depth).parents pid) := by
  obtain ⟨struck, heir, merges, here, _⟩ := passRun.passes depth
  constructor
  · intro other
    have kept : ¬struck pid := fun out => other (here pid out).1
    exact ⟨merges.lps_kept pid kept, merges.real_kept pid kept⟩
  · intro other
    refine merges.stayed pid ?_
    rintro ⟨inside, parent, link, out⟩
    have above := passRun.layered_all depth pid inside parent link
    rw [(here parent out).1] at above
    omega

/-- Something that only one step changes is as at the start before it, and as at the end after. -/
theorem eq_start_or_last {α : Type} (value : Nat → α) (moment : Nat)
    (frame : ∀ step, step ≠ moment → value (step + 1) = value step) {step : Nat} (within : step ≤ last) :
    value step = value 0 ∧ step ≤ moment ∨ value step = value last ∧ moment < step := by
  rcases Nat.lt_or_ge moment step with after | before
  · right
    refine ⟨?_, after⟩
    induction last, within using Nat.le_induction with
    | base => rfl
    | succ last within ih => rw [frame last (by omega), ih]
  · left
    refine ⟨?_, before⟩
    clear within
    induction step with
    | zero => rfl
    | succ step ih =>
      rw [frame step (by omega), ih (by omega)]

/-- Runs from one tree that end alike have been alike all along. -/
theorem PassRun.eq_of_last {run run' : Nat → DedupTensors} (passRun : PassRun n depths run)
    (passRun' : PassRun n depths run') (start : run 0 = run' 0) (final : run last = run' last)
    {depth : Nat} (within : depth ≤ last) : run depth = run' depth := by
  have transfer {α : Type} (field : DedupTensors → α) (moment : Nat)
      (frame : ∀ step, step ≠ moment → field (run (step + 1)) = field (run step))
      (frame' : ∀ step, step ≠ moment → field (run' (step + 1)) = field (run' step)) :
      field (run depth) = field (run' depth) := by
    rcases eq_start_or_last (fun step => field (run step)) moment frame within with
      ⟨same, before⟩ | ⟨same, after⟩
    · rcases eq_start_or_last (fun step => field (run' step)) moment frame' within with
        ⟨same', _⟩ | ⟨_, after⟩
      · exact same.trans ((congrArg field start).trans same'.symm)
      · omega
    · rcases eq_start_or_last (fun step => field (run' step)) moment frame' within with
        ⟨_, before⟩ | ⟨same', _⟩
      · omega
      · exact same.trans ((congrArg field final).trans same'.symm)
  apply DedupTensors.ext_nodes
  · intro pid
    exact transfer (fun tree => tree.parents pid) (depths pid - 2)
      (fun step other => (passRun.frame step pid).2 (by omega))
      (fun step other => (passRun'.frame step pid).2 (by omega))
  · intro pid
    exact transfer (fun tree => tree.lps pid) (depths pid - 1)
      (fun step other => ((passRun.frame step pid).1 (by omega)).1)
      (fun step other => ((passRun'.frame step pid).1 (by omega)).1)
  · intro pid
    exact transfer (fun tree => tree.realLps.map (fun realLps => realLps pid)) (depths pid - 1)
      (fun step other => ((passRun.frame step pid).1 (by omega)).2)
      (fun step other => ((passRun'.frame step pid).1 (by omega)).2)

end runs

section kernelRun

variable {n N depth : Nat} {tokens depths : Nat → Nat} {tree first second : DedupTensors}

/-- Two trees have the same links and log-probabilities at the nodes. -/
def SameNodes (n : Nat) (first second : DedupTensors) : Prop :=
  ∀ pid < n, first.parents pid = second.parents pid ∧ first.lps pid = second.lps pid

theorem SameNodes.twin (same : SameNodes n first second) {pid other : Nat} :
    Twin n depth tokens depths first.parents pid other ↔
      Twin n depth tokens depths second.parents pid other := by
  constructor
  · rintro ⟨here, here', parent, token⟩
    rw [(same pid here.2).1, (same other here'.2).1] at parent
    exact ⟨here, here', parent, token⟩
  · rintro ⟨here, here', parent, token⟩
    rw [← (same pid here.2).1, ← (same other here'.2).1] at parent
    exact ⟨here, here', parent, token⟩

theorem SameNodes.outshone (same : SameNodes n first second) :
    Outshone n depth tokens depths first = Outshone n depth tokens depths second := by
  funext pid
  apply propext
  unfold Outshone
  constructor
  · rintro ⟨alive, other, twin, sign, less⟩
    rw [(same pid twin.at_d.2).2] at alive less
    rw [(same other twin.at_d'.2).2] at sign less
    exact ⟨alive, other, same.twin.mp twin, sign, less⟩
  · rintro ⟨alive, other, twin, sign, less⟩
    rw [← (same pid twin.at_d.2).2] at alive less
    rw [← (same other twin.at_d'.2).2] at sign less
    exact ⟨alive, other, same.twin.mpr twin, sign, less⟩

theorem SameNodes.heir (same : SameNodes n first second) :
    Heir n depth tokens depths first = Heir n depth tokens depths second := by
  have transfer {first second : DedupTensors} (same : SameNodes n first second) {pid winner : Nat}
      (heir : Heir n depth tokens depths first pid winner) :
      Heir n depth tokens depths second pid winner := by
    have inside := heir.member.at_d'.2
    have lps (other : Nat) (twin : Twin n depth tokens depths second.parents pid other) :=
      (same other twin.at_d'.2).2
    refine ⟨same.twin.mp heir.member, ?_, ?_, ?_⟩
    · rw [← (same winner inside).2]
      exact heir.signed
    · intro other twin sign
      rw [← lps other twin] at sign ⊢
      rw [← (same winner inside).2]
      exact heir.greatest other (same.twin.mpr twin) sign
    · intro other twin sign least
      rw [← lps other twin] at sign least
      rw [← (same winner inside).2] at least
      exact heir.earliest other (same.twin.mpr twin) sign least
  funext pid winner
  exact propext ⟨transfer same,
    transfer fun pid inside => ⟨(same pid inside).1.symm, (same pid inside).2.symm⟩⟩

theorem sameNodes_store (n : Nat) (registers : DedupRegisters) (tree : DedupTensors) :
    SameNodes n (storeRegisters n registers tree) registers.toDedupTensors :=
  fun _ within => ⟨if_pos within, if_pos within⟩

/-- What is written back of a pass is a pass over what was written back. -/
theorem Merges.store {struck : Nat → Prop} {heir : Nat → Nat → Prop} {before after : DedupRegisters}
    (merges : Merges n struck heir before.toDedupTensors after.toDedupTensors)
    (inside : ∀ pid, struck pid → pid < n) :
    Merges n struck heir (storeRegisters n before tree) (storeRegisters n after tree) where
  lps_struck := fun pid out => (if_pos (inside pid out)).trans (merges.lps_struck pid out)
  lps_kept := by
    intro pid kept
    by_cases within : pid < n
    · simpa [storeRegisters, within] using merges.lps_kept pid kept
    · simp [storeRegisters, within]
  real_struck := by
    intro pid out
    have real := merges.real_struck pid out
    cases fields : tree.realLps with
    | none => simp [storeRegisters, fields]
    | some memory =>
      simpa [storeRegisters, fields, Function.comp_def, inside pid out] using real
  real_kept := by
    intro pid kept
    have real := merges.real_kept pid kept
    cases fields : tree.realLps with
    | none => simp [storeRegisters, fields]
    | some memory =>
      by_cases within : pid < n
      · simpa [storeRegisters, fields, Function.comp_def, within] using real
      · have both := congrArg (Option.map fun _ => memory pid) real
        simpa [storeRegisters, fields, Function.comp_def, within] using both
  moved := by
    intro pid within parent link out
    rw [(sameNodes_store n before tree pid within).1] at link
    rw [(sameNodes_store n after tree pid within).1]
    exact merges.moved pid within parent link out
  stayed := by
    intro pid unmoved
    by_cases within : pid < n
    · rw [(sameNodes_store n before tree pid within).1] at unmoved ⊢
      rw [(sameNodes_store n after tree pid within).1]
      exact merges.stayed pid unmoved
    · simp [storeRegisters, within]

/-- The tree in memory if the kernel stopped after some passes. -/
def kernelRun (n N : Nat) (tokens depths : Nat → Nat) (scratch : Nat → Int)
    (tree : DedupTensors) (depth : Nat) : DedupTensors :=
  storeRegisters n (dedupPasses n N tokens depths (loadRegisters n scratch tree) depth) tree

theorem packable_dedupPasses (packable : Packable n N tokens tree.parents) (scratch : Nat → Int)
    (depth : Nat) : Packable n N tokens
      (dedupPasses n N tokens depths (loadRegisters n scratch tree) depth).parents := by
  induction depth with
  | zero =>
    have loaded (pid : Nat) (within : pid < n) :
        (loadRegisters n scratch tree).parents pid = tree.parents pid := if_pos within
    exact ⟨packable.covered, packable.room, packable.token_small,
      fun pid within => (loaded pid within).symm ▸ packable.parent_inside pid within⟩
  | succ depth ih =>
    exact (dedupPass_merges _ ih packable.small).packable
      (fun _ _ won => (Winner.at_d won).2) ih

/-- A turn of the kernel is a pass over the tree it would have left before. -/
theorem kernelRun_merges (packable : Packable n N tokens tree.parents) (depths : Nat → Nat)
    (scratch : Nat → Int) (depth : Nat) :
    Merges n (Outshone n (depth + 1) tokens depths (kernelRun n N tokens depths scratch tree depth))
      (Heir n (depth + 1) tokens depths (kernelRun n N tokens depths scratch tree depth))
      (kernelRun n N tokens depths scratch tree depth)
      (kernelRun n N tokens depths scratch tree (depth + 1)) := by
  have same := sameNodes_store n
    (dedupPasses n N tokens depths (loadRegisters n scratch tree) depth) tree
  unfold kernelRun
  rw [same.outshone, same.heir]
  refine Merges.store (dedupPass_merges _ (packable_dedupPasses packable scratch depth)
    packable.small) ?_
  rintro pid ⟨_, _, twin, _⟩
  exact twin.at_d.2

/-- Before the first pass the kernel would leave the tree as it is. -/
theorem kernelRun_zero (scratch : Nat → Int) : kernelRun n N tokens depths scratch tree 0 = tree := by
  apply DedupTensors.ext_nodes
  · intro pid
    by_cases within : pid < n <;> simp [kernelRun, dedupPasses, storeRegisters, loadRegisters, within]
  · intro pid
    by_cases within : pid < n <;> simp [kernelRun, dedupPasses, storeRegisters, loadRegisters, within]
  · intro pid
    cases fields : tree.realLps with
    | none => simp [kernelRun, dedupPasses, storeRegisters, fields]
    | some memory =>
      by_cases within : pid < n <;>
        simp [kernelRun, dedupPasses, storeRegisters, loadRegisters, fields, within]

end kernelRun

section reference

variable {n N depth last maxTreeDepth maxWalk : Nat} {tokens depths : Nat → Nat} {tree : DedupTensors}

theorem Merges.nonpositive {struck : Nat → Prop} {heir : Nat → Nat → Prop}
    {before after : DedupTensors} (merges : Merges n struck heir before after)
    (nonpositive : ∀ pid < n, (before.lps pid).value ≤ 0) :
    ∀ pid < n, (after.lps pid).value ≤ 0 := by
  intro pid within
  by_cases out : struck pid
  · rw [merges.lps_struck pid out]
    exact Number.negInfinity_nonpositive
  · rw [merges.lps_kept pid out]
    exact nonpositive pid within

/-- Keys fit and log-probabilities are not positive before every turn of the reference. -/
theorem referencePasses_sound (packable : Packable n N tokens tree.parents)
    (nonpositive : ∀ pid < n, (tree.lps pid).value ≤ 0) (depth : Nat) :
    Packable n N tokens (referencePasses n tokens depths tree depth).parents ∧
      ∀ pid < n, ((referencePasses n tokens depths tree depth).lps pid).value ≤ 0 := by
  induction depth with
  | zero => exact ⟨packable, nonpositive⟩
  | succ depth ih =>
    have merges : Merges n
        (Overtaken n (depth + 1) tokens depths (referencePasses n tokens depths tree depth))
        (FirstSurvivor n (depth + 1) tokens depths (referencePasses n tokens depths tree depth))
        (referencePasses n tokens depths tree depth)
        (referencePasses n tokens depths tree (depth + 1)) :=
      referencePass_merges ih.1
    exact ⟨merges.packable (fun _ _ won => won.member.at_d'.2) ih.1,
      merges.nonpositive ih.2⟩

/-- The turns of the reference are passes one depth after the other. -/
theorem referencePasses_run (packable : Packable n N tokens tree.parents)
    (nonpositive : ∀ pid < n, (tree.lps pid).value ≤ 0) (layered : Layered n depths tree.parents) :
    PassRun n depths (referencePasses n tokens depths tree) where
  layered := layered
  passes := by
    intro depth
    refine ⟨_, _, referencePass_merges (referencePasses_sound packable nonpositive depth).1, ?_, ?_⟩
    · rintro pid ⟨_, _, twin, _⟩
      exact twin.at_d
    · exact fun pid winner heir => heir.member.at_d'

/-- The turns of the kernel are passes one depth after the other. -/
theorem kernelRun_run (packable : Packable n N tokens tree.parents) (scratch : Nat → Int)
    (layered : Layered n depths tree.parents) :
    PassRun n depths (kernelRun n N tokens depths scratch tree) where
  layered := (kernelRun_zero scratch).symm ▸ layered
  passes := by
    intro depth
    refine ⟨_, _, kernelRun_merges packable depths scratch depth, ?_, ?_⟩
    · rintro pid ⟨_, _, twin, _⟩
      exact twin.at_d
    · exact fun pid winner heir => Winner.at_d heir

/-- Kernel and reference leave the same tree exactly when they agree on every pass. -/
theorem kernelRun_eq_iff (packable : Packable n N tokens tree.parents)
    (nonpositive : ∀ pid < n, (tree.lps pid).value ≤ 0) (layered : Layered n depths tree.parents)
    (scratch : Nat → Int) (last : Nat) :
    kernelRun n N tokens depths scratch tree last = referencePasses n tokens depths tree last ↔
      ∀ depth < last, Agrees n (depth + 1) tokens depths (referencePasses n tokens depths tree depth) := by
  have pass (depth : Nat) (same : kernelRun n N tokens depths scratch tree depth =
      referencePasses n tokens depths tree depth) :
      kernelRun n N tokens depths scratch tree (depth + 1) =
          referencePasses n tokens depths tree (depth + 1) ↔
        Agrees n (depth + 1) tokens depths (referencePasses n tokens depths tree depth) := by
    have sound : Packable n N tokens (referencePasses n tokens depths tree depth).parents ∧
        ∀ pid < n, ((referencePasses n tokens depths tree depth).lps pid).value ≤ 0 :=
      referencePasses_sound packable nonpositive depth
    have merges := kernelRun_merges packable depths scratch depth
    rw [same] at merges
    exact agrees_iff sound.2 merges (referencePass_merges sound.1)
  constructor
  · intro final depth within
    have same {depth : Nat} (early : depth ≤ last) := (kernelRun_run packable scratch layered).eq_of_last
      (referencePasses_run packable nonpositive layered) (kernelRun_zero scratch) final early
    exact (pass depth (same within.le)).mp (same within)
  · intro agrees
    induction last with
    | zero => exact kernelRun_zero scratch
    | succ last ih =>
      have same := ih fun depth within => agrees depth (within.trans (Nat.lt_succ_self last))
      exact (pass last same).mpr (agrees last (Nat.lt_succ_self last))

/-- The walk of the reference counts the links the walk of the kernel counts. -/
theorem referenceDepth_eq (parents : Nat → Int) (turns cur : Nat) :
    referenceDepth parents turns cur = walkDepth parents turns cur := by
  induction turns generalizing cur with
  | zero => rfl
  | succ turns ih =>
    unfold referenceDepth walkDepth
    split
    next root => exact (walkDepth_top root turns).symm
    next => rw [ih]

/-- A tree that is no deeper than a bound has one depth for every walk that reaches the bound. -/
theorem walkDepth_of_shallow {parents : Nat → Int} {bound pid : Nat}
    (shallow : ¬DeeperThan bound parents pid) {turns : Nat} (long : bound ≤ turns) :
    walkDepth parents turns pid = walkDepth parents bound pid := by
  unfold DeeperThan at shallow
  have clamp := walkDepth_clamp parents bound pid
  have clamp' := walkDepth_clamp parents (bound + 1) pid
  have same : walkDepth parents turns pid = walkDepth parents bound pid ∧
      walkDepth parents (turns + 1) pid = walkDepth parents bound pid := by
    induction turns, long using Nat.le_induction with
    | base => omega
    | succ turns long ih =>
      have further := walkDepth_clamp parents (turns + 1) pid
      omega
  exact same.1

/-- The reference counts the depths the kernel does, in a tree no deeper than either walk. -/
theorem referenceDepths_eq {parents : Nat → Int}
    (shallow : ∀ pid < n, ¬DeeperThan maxTreeDepth parents pid)
    (shallow' : ∀ pid < n, ¬DeeperThan maxWalk parents pid) :
    referenceDepths n maxWalk parents = laneDepth n maxTreeDepth parents := by
  funext pid
  unfold referenceDepths laneDepth
  split
  next within =>
    rw [referenceDepth_eq]
    rcases Nat.le_total maxTreeDepth maxWalk with shorter | longer
    · exact walkDepth_of_shallow (shallow pid within) shorter
    · exact (walkDepth_of_shallow (shallow' pid within) longer).symm
  next => rfl

/-- Depths count the links in a tree no deeper than the walk. -/
theorem layered_of_shallow {parents : Nat → Int}
    (inside : ∀ pid < n, -1 ≤ parents pid ∧ parents pid < n)
    (shallow : ∀ pid < n, ¬DeeperThan maxTreeDepth parents pid) :
    Layered n (laneDepth n maxTreeDepth parents) parents := by
  intro pid within parent link
  have within' : parent < n := by
    have := inside pid within
    omega
  have full := walkDepth_of_shallow (shallow pid within) (Nat.le_succ maxTreeDepth)
  rw [walkDepth_link link] at full
  rw [laneDepth, laneDepth, if_pos within, if_pos within', full]

theorem referencePasses_deepest (deep : ∀ pid < n, depths pid ≤ last) :
    referencePasses n tokens depths tree (deepest n depths) =
      referencePasses n tokens depths tree last := by
  obtain ⟨reached, _, greatest⟩ := foldl_max_spec (List.range n) depths 0
  have within : deepest n depths ≤ last := by
    unfold deepest
    rcases reached with none | ⟨pid, listed, same⟩
    · omega
    · rw [same]
      exact deep pid (List.mem_range.mp listed)
  clear deep
  induction last, within using Nat.le_induction with
  | base => rfl
  | succ last within ih =>
    have empty : atDepth n (last + 1) depths = [] := by
      refine List.filter_eq_nil_iff.mpr fun pid listed => ?_
      have bound := greatest pid listed
      unfold deepest at within
      rw [decide_eq_true_iff]
      omega
    rw [ih, referencePasses, referencePass, if_pos empty]

theorem dedupDepthByDepthTriton_run (many : ¬n ≤ 1) {scratch : Nat → Int} :
    dedupDepthByDepthTriton tokens n maxTreeDepth scratch tree =
      kernelRun n (blockSize n) tokens (laneDepth n maxTreeDepth tree.parents) scratch tree maxTreeDepth := by
  rw [dedupDepthByDepthTriton, if_neg many]
  rfl

theorem dedupDepthByDepth_run (many : ¬n ≤ 1)
    (shallow : ∀ pid < n, ¬DeeperThan maxTreeDepth tree.parents pid)
    (shallow' : ∀ pid < n, ¬DeeperThan maxWalk tree.parents pid) :
    dedupDepthByDepth tokens n maxWalk tree =
      referencePasses n tokens (laneDepth n maxTreeDepth tree.parents) tree maxTreeDepth := by
  have deep : ∀ pid < n, laneDepth n maxTreeDepth tree.parents pid ≤ maxTreeDepth := by
    intro pid within
    have clamp := walkDepth_clamp tree.parents maxTreeDepth pid
    rw [laneDepth, if_pos within]
    omega
  rw [dedupDepthByDepth, if_neg many, referenceDepths_eq shallow shallow', referencePasses_deepest deep]

/-- Where every node below the roots is live and has the sign bit set, the two agree on every pass:
the passes before have left the log-probabilities of its depth alone. -/
theorem agrees_of_signed (packable : Packable n N tokens tree.parents)
    (nonpositive : ∀ pid < n, (tree.lps pid).value ≤ 0) (layered : Layered n depths tree.parents)
    (signed : ∀ pid < n, 0 < depths pid → tree.lps pid ≠ .negInfinity ∧ (tree.lps pid).negative = true)
    (depth : Nat) : Agrees n (depth + 1) tokens depths (referencePasses n tokens depths tree depth) := by
  have passes := referencePasses_run packable nonpositive layered
  have kept : ∀ pid, depths pid = depth + 1 → ∀ step ≤ depth,
      (referencePasses n tokens depths tree step).lps pid = tree.lps pid := by
    intro pid here step
    induction step with
    | zero => exact fun _ => rfl
    | succ step ih => exact fun within => ((passes.frame step pid).1 (by omega)).1.trans (ih (by omega))
  have alive : ∀ {pid other}, Twin n (depth + 1) tokens depths
      (referencePasses n tokens depths tree depth).parents pid other →
        (referencePasses n tokens depths tree depth).lps other ≠ .negInfinity ∧
          ((referencePasses n tokens depths tree depth).lps other).negative = true := by
    intro pid other twin
    obtain ⟨here, within⟩ := twin.at_d'
    rw [kept other here depth le_rfl]
    exact signed other within (by omega)
  constructor
  · rintro pid ⟨live, other, twin, less⟩
    exact ⟨live, other, twin, (alive twin).2, less⟩
  · intro pid _ parent _ _ winner _ other twin unsigned
    obtain ⟨live, negative⟩ := alive twin
    exact unsigned.elim (fun dead => absurd dead live) (fun plus => absurd (negative.symm.trans plus) (by decide))

end reference

/-- The kernel and the reference return the same tree exactly when they agree on every pass. -/
theorem dedupDepthByDepthTriton_eq_iff {n maxTreeDepth maxWalk : Nat} {tokens : Nat → Nat}
    {tree : DedupTensors} (scratch : Nat → Int)
    (packable : Packable n (blockSize n) tokens tree.parents)
    (nonpositive : ∀ pid < n, (tree.lps pid).value ≤ 0)
    (shallow : ∀ pid < n, ¬DeeperThan maxTreeDepth tree.parents pid)
    (shallow' : ∀ pid < n, ¬DeeperThan maxWalk tree.parents pid) :
    dedupDepthByDepthTriton tokens n maxTreeDepth scratch tree =
        dedupDepthByDepth tokens n maxWalk tree ↔
      ∀ depth < maxTreeDepth,
        Agrees n (depth + 1) tokens (laneDepth n maxTreeDepth tree.parents)
          (referencePasses n tokens (laneDepth n maxTreeDepth tree.parents) tree depth) := by
  by_cases few : n ≤ 1
  · have alone (depth : Nat) (current : DedupTensors) (pid : Nat) :
        ¬Overtaken n (depth + 1) tokens (laneDepth n maxTreeDepth tree.parents) current pid := by
      rintro ⟨_, other, twin, less⟩
      have within := twin.at_d.2
      have within' := twin.at_d'.2
      obtain rfl : pid = other := by omega
      exact absurd less (lt_irrefl _)
    rw [dedupDepthByDepthTriton, dedupDepthByDepth, if_pos few, if_pos few]
    refine ⟨fun _ depth _ => ⟨fun pid upper => absurd upper (alone depth _ pid), ?_⟩, fun _ => rfl⟩
    exact fun _ _ parent _ out => absurd out.overtaken (alone depth _ parent)
  · rw [dedupDepthByDepthTriton_run few, dedupDepthByDepth_run few shallow shallow']
    exact kernelRun_eq_iff packable nonpositive (layered_of_shallow packable.parent_inside shallow)
      scratch maxTreeDepth

/-- On the cousins they agree, and strike out the lower of the two nodes with one token and its child. -/
theorem dedupDepthByDepthTriton_eq_iff_cousins :
    dedupDepthByDepthTriton cousinTokens 7 4 (fun _ => 0) cousins =
        dedupDepthByDepth cousinTokens 7 20 cousins ∧
      (dedupDepthByDepth cousinTokens 7 20 cousins).lps 4 = .negInfinity ∧
      (dedupDepthByDepth cousinTokens 7 20 cousins).lps 6 = .negInfinity := by
  have shallow : ∀ pid < 7, ¬DeeperThan 4 cousins.parents pid := by unfold DeeperThan; decide
  have signed : ∀ pid < 7, 0 < laneDepth 7 4 cousins.parents pid →
      cousins.lps pid ≠ .negInfinity ∧ (cousins.lps pid).negative = true := by decide
  refine ⟨(dedupDepthByDepthTriton_eq_iff (fun _ => 0) cousins_falling.packable cousins_falling.nonpositive
    shallow (by unfold DeeperThan; decide)).mpr fun depth _ => ?_, by decide +kernel, by decide +kernel⟩
  exact agrees_of_signed cousins_falling.packable cousins_falling.nonpositive
    (layered_of_shallow cousins_falling.packable.parent_inside shallow) signed depth

/-- They return the same tree whenever every node below the roots is live and none has a `+0.0` in it. -/
theorem dedupDepthByDepthTriton_eq {n maxTreeDepth maxWalk : Nat} {tokens : Nat → Nat}
    {tree : DedupTensors} (scratch : Nat → Int)
    (packable : Packable n (blockSize n) tokens tree.parents)
    (nonpositive : ∀ pid < n, (tree.lps pid).value ≤ 0)
    (shallow : ∀ pid < n, ¬DeeperThan maxTreeDepth tree.parents pid)
    (shallow' : ∀ pid < n, ¬DeeperThan maxWalk tree.parents pid)
    (signed : ∀ pid < n, 0 ≤ tree.parents pid →
      tree.lps pid ≠ .negInfinity ∧ (tree.lps pid).negative = true) :
    dedupDepthByDepthTriton tokens n maxTreeDepth scratch tree = dedupDepthByDepth tokens n maxWalk tree := by
  have layered := layered_of_shallow packable.parent_inside shallow
  by_cases few : n ≤ 1
  · rw [dedupDepthByDepthTriton, dedupDepthByDepth, if_pos few, if_pos few]
  · rw [dedupDepthByDepthTriton_run few, dedupDepthByDepth_run few shallow shallow']
    refine (kernelRun_eq_iff packable nonpositive layered scratch maxTreeDepth).mpr fun depth _ => ?_
    refine agrees_of_signed packable nonpositive layered (fun pid within low => ?_) depth
    refine signed pid within (Int.not_lt.mp fun root => ?_)
    rw [laneDepth, if_pos within, walkDepth_top root] at low
    exact absurd low (Nat.lt_irrefl 0)

/-- A root child with three children of one token, the first of them dead; the last has a child. -/
def widowed : DedupTensors where
  parents := fun pid => [-1, 0, 0, 0, 3].getD pid (-1)
  lps := fun pid => [.minus 1, .negInfinity, .minus 2, .minus 3, .minus 4].getD pid .negInfinity
  realLps := none

/-- The tokens of the widowed tree. -/
def widowedTokens (pid : Nat) : Nat := [10, 11, 11, 11, 12].getD pid 0

/-- The kernel moves the child to the live duplicate, the reference to the dead one. -/
theorem widowed_parts :
    dedupDepthByDepthTriton widowedTokens 5 3 (fun _ => 0) widowed ≠
        dedupDepthByDepth widowedTokens 5 20 widowed ∧
      (dedupDepthByDepthTriton widowedTokens 5 3 (fun _ => 0) widowed).parents 4 = 2 ∧
      (dedupDepthByDepth widowedTokens 5 20 widowed).parents 4 = 1 := by
  have kernel : (dedupDepthByDepthTriton widowedTokens 5 3 (fun _ => 0) widowed).parents 4 = 2 := by
    decide +kernel
  have reference : (dedupDepthByDepth widowedTokens 5 20 widowed).parents 4 = 1 := by decide +kernel
  refine ⟨fun same => ?_, kernel, reference⟩
  rw [same, reference] at kernel
  exact absurd kernel (by decide)

end SpecBlock.Building
