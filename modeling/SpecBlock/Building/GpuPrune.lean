import Mathlib.Algebra.Order.BigOperators.Group.Finset
import SpecBlock.Building.TreePrune
import SpecBlock.Foundation.Runs

/-!
# Pruning a tree on the device

`gpu_prune_tree` marks the best nodes of a budget and launches `_ancestor_closure_kernel`:
the program of a marked node walks to the root and marks what it meets. Programs run in any
interleaving and read marks that others write. A node marked during the launch may or may not
start a walk of its own, depending on when its program looks.

A mark is never taken back and every walk of a node marked before the launch reaches the root,
so the marks end as the ancestries of the seeds in every interleaving. When log-probabilities
fall along every link the seeds hold their ancestors already, and what is compacted is what
the greedy pruning keeps.
-/

namespace SpecBlock.Building

open Rows ParentChain BudgetClosure

variable {L : Type}

/-- Where the program of a node stands: before it looks at its own mark, before it looks at
the mark of `cur` with some turns left, before it sets that mark, or at its end. -/
inductive ClosureProgram
  | start
  | turn (cur : Int) (left : Nat)
  | unmarked (cur left : Nat)
  | done
  deriving DecidableEq, Repr

/-- One access of a program to `keep`, with the reads of the parents that follow it. -/
def ClosureProgram.step (parents : List Int) (maxDepth pid : Nat) (keep : Nat → Nat) :
    ClosureProgram → ClosureProgram × (Nat → Nat)
  | .start => if keep pid = 0 then (.done, keep) else (.turn (parents.getD pid 0) maxDepth, keep)
  | .turn _ 0 => (.done, keep)
  | .turn cur (left + 1) =>
    if 0 ≤ cur then
      if keep cur.toNat = 0 then (.unmarked cur.toNat left, keep)
      else (.turn (parents.getD cur.toNat 0) left, keep)
    else (.turn cur left, keep)
  | .unmarked cur left => (.turn (parents.getD cur 0) left, Function.update keep cur 1)
  | .done => (.done, keep)

/-- A launch of `_ancestor_closure_kernel`: the marks and where every program stands. -/
structure ClosureLaunch where
  keep : Nat → Nat
  program : Nat → ClosureProgram

/-- The program of a node takes its next step. -/
def ClosureLaunch.advance (parents : List Int) (maxDepth pid : Nat) (launch : ClosureLaunch) :
    ClosureLaunch where
  keep := ((launch.program pid).step parents maxDepth pid launch.keep).2
  program := Function.update launch.program pid
    ((launch.program pid).step parents maxDepth pid launch.keep).1

/-- The interleavings of a launch: any program that is not at its end may step. -/
def closureSystem (parents : List Int) (n maxDepth : Nat) (seeds : Nat → Nat) :
    System ClosureLaunch where
  start := fun launch => launch = ⟨seeds, fun _ => .start⟩
  step := fun launch following => ∃ pid < n, launch.program pid ≠ .done ∧
    following = launch.advance parents maxDepth pid

/-- The marks when every program of some interleaving is at its end. -/
def AncestorClosure (parents : List Int) (n maxDepth : Nat) (seeds keep : Nat → Nat) : Prop :=
  ∃ launch : ClosureLaunch, (closureSystem parents n maxDepth seeds).Reachable launch ∧
    (∀ pid < n, launch.program pid = .done) ∧ launch.keep = keep

/-- `torch.topk`: as many distinct positions as asked for, with no greater key left out. -/
structure TopK [LinearOrder L] (keys : List L) (count : Nat) (chosen : List Nat) : Prop where
  distinct : chosen.Nodup
  exactly : chosen.length = count
  inside : ∀ node ∈ chosen, node < keys.length
  greatest : ∀ node ∈ chosen, ∀ other < keys.length, other ∉ chosen →
    ∀ high ∈ keys[node]?, ∀ low ∈ keys[other]?, low ≤ high

/-- The marks before the launch. -/
def seedMarks [LinearOrder L] (topk : List L → Nat → List Nat) (n budget : Nat) (tnLps : List L)
    (node : Nat) : Nat :=
  if node ∈ topk (tnLps.take n) (min budget n) then 1 else 0

/-- `old_to_new`: the new position of every kept node, and `-1` elsewhere. -/
def oldToNewTensor (n : Nat) (keptIdx : List Nat) : List Int :=
  scatter keptIdx ((List.range keptIdx.length).map (fun (new : Nat) _ => (new : Int)))
    (List.replicate n (-1))

/-- Gather the marked nodes and renumber their parents. -/
def gatherKept (n : Nat) (keep : Nat → Nat) (arrays : TreeArrays L) : Nat × TreeArrays L :=
  let keptIdx := (List.range n).filter (fun node => keep node ≠ 0)
  (keptIdx.length, {
    tokens := gather keptIdx arrays.tokens
    parents := (gather keptIdx arrays.parents).map (fun parent =>
      if 0 ≤ parent then (oldToNewTensor n keptIdx).getD (max parent 0).toNat 0 else -1)
    lps := gather keptIdx arrays.lps
    ranks := gather keptIdx arrays.ranks
    blocks := gather keptIdx arrays.blocks
    slots := gather keptIdx arrays.slots })

/-- `gpu_prune_tree`: what it may return. A tree within its budget fails the assertion. -/
def GpuPruneTree [LinearOrder L] (topk : List L → Nat → List Nat) (n : Nat) (arrays : TreeArrays L)
    (budget maxTreeDepth : Nat) (result : Nat × TreeArrays L) : Prop :=
  budget < n ∧ ∃ keep, AncestorClosure (arrays.parents.take n) n maxTreeDepth
    (seedMarks topk n budget arrays.lps) keep ∧ result = gatherKept n keep arrays

section closure

variable {n maxDepth : Nat} {parents : List Int} {seeds : Nat → Nat}

/-- Some seed has the node in its ancestry. -/
def SeedAncestor (n : Nat) (parents : List Int) (seeds : Nat → Nat) (node : Nat) : Prop :=
  ∃ seed < n, seeds seed ≠ 0 ∧ node ∈ ancestry n parents seed

/-- A walk from a marked node: its proper ancestors are marked or lie at or above the node the
walk looks at next, which has no more ancestors than turns are left. -/
structure Walking (n : Nat) (parents : List Int) (keep : Nat → Nat) (pid : Nat)
    (next : Option Nat) (left : Nat) : Prop where
  marked : keep pid ≠ 0
  behind : ∀ above, Relation.TransGen (Link n parents) pid above →
    keep above ≠ 0 ∨ ∃ cur ∈ next, above ∈ ancestry n parents cur
  ahead : ∀ cur ∈ next, cur ∈ ancestry n parents pid ∧ (ancestry n parents cur).card ≤ left

/-- The node a register points at. -/
def pointee (cur : Int) : Option Nat := if 0 ≤ cur then some cur.toNat else none

/-- What is known of a program where it stands. -/
def Progress (n : Nat) (parents : List Int) (seeds keep : Nat → Nat) (pid : Nat) :
    ClosureProgram → Prop
  | .start => True
  | .turn cur left => Walking n parents keep pid (pointee cur) left
  | .unmarked cur left => Walking n parents keep pid (some cur) (left + 1)
  | .done => seeds pid ≠ 0 →
    ∀ above, Relation.TransGen (Link n parents) pid above → keep above ≠ 0

/-- The invariant of a launch: seeds are marked, only their ancestors are, and every program
is making progress. -/
structure Closing (n : Nat) (parents : List Int) (seeds : Nat → Nat) (launch : ClosureLaunch) :
    Prop where
  seeded : ∀ node, seeds node ≠ 0 → launch.keep node ≠ 0
  sound : ∀ node, launch.keep node ≠ 0 → SeedAncestor n parents seeds node
  progress : ∀ pid < n, Progress n parents seeds launch.keep pid (launch.program pid)

theorem Progress.mono {keep later : Nat → Nat} (grows : ∀ node, keep node ≠ 0 → later node ≠ 0)
    {pid : Nat} {program : ClosureProgram} (progress : Progress n parents seeds keep pid program) :
    Progress n parents seeds later pid program := by
  have walking {next : Option Nat} {left : Nat} (walk : Walking n parents keep pid next left) :
      Walking n parents later pid next left :=
    ⟨grows pid walk.marked, fun above chain => (walk.behind above chain).imp_left (grows above),
      walk.ahead⟩
  cases program with
  | start => trivial
  | turn cur left => exact walking progress
  | unmarked cur left => exact walking progress
  | done => exact fun seeded above chain => grows above (progress seeded above chain)

theorem Walking.next (forest : Forest n parents) {keep : Nat → Nat} {pid cur left : Nat}
    (started : pid < n) (walk : Walking n parents keep pid (some cur) (left + 1)) (marked : keep cur ≠ 0) :
    Walking n parents keep pid (pointee (parents.getD cur 0)) left := by
  obtain ⟨chain, few⟩ := walk.ahead cur rfl
  have inside := Finset.mem_range.mp (forest.ancestry_subset started chain)
  rcases forest.parent_cases inside with top | ⟨above, link⟩
  · have next : pointee (parents.getD cur 0) = none := by
      rw [List.getD_eq_getElem?_getD, top]
      rfl
    rw [next]
    refine ⟨walk.marked, fun above further => .inl ?_, by simp⟩
    rcases walk.behind above further with done | ⟨other, same, member⟩
    · exact done
    · obtain rfl := Option.some.inj same
      rw [forest.ancestry_top top, Finset.mem_singleton] at member
      exact member ▸ marked
  · have next : pointee (parents.getD cur 0) = some above := by
      rw [List.getD_eq_getElem?_getD, link.2]
      simp [pointee]
    rw [forest.ancestry_link link, Finset.card_insert_of_notMem (forest.not_mem_ancestry link)]
      at few
    rw [next]
    refine ⟨walk.marked, fun other further => ?_, ?_⟩
    · rcases walk.behind other further with done | ⟨here, same, member⟩
      · exact .inl done
      · obtain rfl := Option.some.inj same
        rw [forest.ancestry_link link, Finset.mem_insert] at member
        rcases member with rfl | higher
        · exact .inl marked
        · exact .inr ⟨above, rfl, higher⟩
    · rintro other ⟨⟩
      have up := (forest.mem_ancestry.mp chain).tail link
      exact ⟨forest.mem_ancestry.mpr up, by omega⟩

theorem ClosureLaunch.advance_grows (launch : ClosureLaunch) (pid node : Nat)
    (marked : launch.keep node ≠ 0) : (launch.advance parents maxDepth pid).keep node ≠ 0 := by
  unfold ClosureLaunch.advance ClosureProgram.step
  split <;> (try split) <;> (try split) <;> try exact marked
  next cur left _ =>
    by_cases same : node = cur
    · simp [same]
    · simpa [Function.update_of_ne same] using marked

theorem Closing.step (forest : Forest n parents)
    (shallow : ∀ node < n, (ancestry n parents node).card ≤ maxDepth + 1) {launch : ClosureLaunch}
    (closing : Closing n parents seeds launch) {pid : Nat} (inside : pid < n) :
    Progress n parents seeds (launch.advance parents maxDepth pid).keep pid
        ((launch.program pid).step parents maxDepth pid launch.keep).1 ∧
      ∀ node, (launch.advance parents maxDepth pid).keep node ≠ 0 →
        SeedAncestor n parents seeds node := by
  have progress := closing.progress pid inside
  unfold ClosureLaunch.advance
  cases program : launch.program pid with
  | start =>
    simp only [ClosureProgram.step]
    by_cases unmarked : launch.keep pid = 0
    · rw [if_pos unmarked]
      exact ⟨fun seeded => absurd unmarked (closing.seeded pid seeded), closing.sound⟩
    · rw [if_neg unmarked]
      have walk : Walking n parents launch.keep pid (some pid) (maxDepth + 1) := by
        refine ⟨unmarked, fun above chain => .inr ⟨pid, rfl, ?_⟩, ?_⟩
        · exact forest.mem_ancestry.mpr chain.to_reflTransGen
        · rintro cur ⟨⟩
          exact ⟨forest.needs.self pid, shallow pid inside⟩
      exact ⟨walk.next forest inside unmarked, closing.sound⟩
  | turn cur left =>
    rw [program] at progress
    have walk : Walking n parents launch.keep pid (pointee cur) left := progress
    cases left with
    | zero =>
      -- No turn is left, so the walk has passed the root.
      refine ⟨fun _ above chain => ?_, closing.sound⟩
      refine (walk.behind above chain).resolve_right ?_
      rintro ⟨last, pointed, -⟩
      have some := Finset.card_pos.mpr ⟨last, forest.needs.self last⟩
      exact absurd (walk.ahead last pointed).2 (by omega)
    | succ left =>
      simp only [ClosureProgram.step]
      by_cases valid : 0 ≤ cur
      · have pointed : pointee cur = some cur.toNat := by simp [pointee, valid]
        rw [pointed] at walk
        rw [if_pos valid]
        by_cases unmarked : launch.keep cur.toNat = 0
        · rw [if_pos unmarked]
          exact ⟨walk, closing.sound⟩
        · rw [if_neg unmarked]
          exact ⟨walk.next forest inside unmarked, closing.sound⟩
      · have passed : pointee cur = none := by simp [pointee, valid]
        rw [if_neg valid]
        refine ⟨?_, closing.sound⟩
        show Walking n parents launch.keep pid (pointee cur) left
        rw [passed] at walk ⊢
        exact ⟨walk.marked, walk.behind, by simp⟩
  | unmarked cur left =>
    rw [program] at progress
    have walk : Walking n parents launch.keep pid (some cur) (left + 1) := progress
    have grows : ∀ node, launch.keep node ≠ 0 → Function.update launch.keep cur 1 node ≠ 0 := by
      intro node marked
      by_cases same : node = cur
      · simp [same]
      · simpa [Function.update_of_ne same] using marked
    have later : Walking n parents (Function.update launch.keep cur 1) pid (some cur) (left + 1) :=
      ⟨grows pid walk.marked, fun above chain => (walk.behind above chain).imp_left (grows above),
        walk.ahead⟩
    simp only [ClosureProgram.step]
    refine ⟨later.next forest inside (by simp), fun node marked => ?_⟩
    by_cases same : node = cur
    · obtain ⟨seed, seedInside, seeded, member⟩ := closing.sound pid walk.marked
      exact ⟨seed, seedInside, seeded,
        same ▸ forest.needs.trans seed pid member (walk.ahead cur rfl).1⟩
    · exact closing.sound node (by simpa [Function.update_of_ne same] using marked)
  | done =>
    rw [program] at progress
    exact ⟨progress, closing.sound⟩

theorem closing_of_reachable (forest : Forest n parents)
    (shallow : ∀ node < n, (ancestry n parents node).card ≤ maxDepth + 1)
    (seedsInside : ∀ node, seeds node ≠ 0 → node < n) {launch : ClosureLaunch}
    (reached : (closureSystem parents n maxDepth seeds).Reachable launch) :
    Closing n parents seeds launch := by
  refine reached.invariant (Closing n parents seeds) ?_ ?_
  · rintro launch rfl
    refine ⟨fun _ seeded => seeded, fun node seeded => ?_, fun _ _ => trivial⟩
    exact ⟨node, seedsInside node seeded, seeded, forest.needs.self node⟩
  · rintro launch following closing ⟨pid, inside, -, rfl⟩
    obtain ⟨progress, sound⟩ := closing.step forest shallow inside
    refine ⟨fun node seeded => ?_, sound, fun other otherInside => ?_⟩
    · exact launch.advance_grows pid node (closing.seeded node seeded)
    · by_cases same : other = pid
      · subst same
        simpa [ClosureLaunch.advance] using progress
      · have unmoved : (launch.advance parents maxDepth pid).program other = launch.program other := by
          simp [ClosureLaunch.advance, Function.update_of_ne same]
        rw [unmoved]
        exact (closing.progress other otherInside).mono (launch.advance_grows pid)

/-- A launch marks the ancestries of its seeds, in every interleaving. -/
theorem ancestorClosure_iff (forest : Forest n parents)
    (shallow : ∀ node < n, (ancestry n parents node).card ≤ maxDepth + 1)
    (seedsInside : ∀ node, seeds node ≠ 0 → node < n) {keep : Nat → Nat}
    (closed : AncestorClosure parents n maxDepth seeds keep) (node : Nat) :
    keep node ≠ 0 ↔ SeedAncestor n parents seeds node := by
  obtain ⟨launch, reached, finished, rfl⟩ := closed
  have closing := closing_of_reachable forest shallow seedsInside reached
  refine ⟨closing.sound node, ?_⟩
  rintro ⟨seed, inside, seeded, member⟩
  have progress := closing.progress seed inside
  rw [finished seed inside] at progress
  rcases Relation.reflTransGen_iff_eq_or_transGen.mp (forest.mem_ancestry.mp member) with
    rfl | proper
  · exact closing.seeded _ seeded
  · exact progress seeded node proper

/-- The accesses a program still makes, at most. -/
def ClosureProgram.remaining (maxDepth : Nat) : ClosureProgram → Nat
  | .start => 2 * maxDepth + 2
  | .turn _ left => 2 * left + 1
  | .unmarked _ left => 2 * left + 2
  | .done => 0

theorem ClosureProgram.step_remaining (pid : Nat) (keep : Nat → Nat) {program : ClosureProgram}
    (unfinished : program ≠ .done) :
    (program.step parents maxDepth pid keep).1.remaining maxDepth < program.remaining maxDepth := by
  cases program with
  | start =>
    simp only [ClosureProgram.step]
    split <;> simp only [ClosureProgram.remaining] <;> omega
  | turn cur left =>
    cases left with
    | zero => simp [ClosureProgram.step, ClosureProgram.remaining]
    | succ left =>
      simp only [ClosureProgram.step]
      split
      · split <;> simp only [ClosureProgram.remaining] <;> omega
      · simp only [ClosureProgram.remaining]
        omega
  | unmarked cur left =>
    simp only [ClosureProgram.step, ClosureProgram.remaining]
    omega
  | done => exact absurd rfl unfinished

/-- Every interleaving can be continued to the end of all programs. -/
theorem exists_finished {launch : ClosureLaunch}
    (reached : (closureSystem parents n maxDepth seeds).Reachable launch) :
    ∃ keep, AncestorClosure parents n maxDepth seeds keep := by
  generalize size : (∑ pid ∈ Finset.range n, (launch.program pid).remaining maxDepth) = total
  induction total using Nat.strong_induction_on generalizing launch with
  | h total ih =>
    by_cases finished : ∀ pid < n, launch.program pid = .done
    · exact ⟨launch.keep, launch, reached, finished, rfl⟩
    · push Not at finished
      obtain ⟨pid, inside, unfinished⟩ := finished
      refine ih _ ?_ (reached.step _ _ ⟨pid, inside, unfinished, rfl⟩) rfl
      rw [← size]
      apply Finset.sum_lt_sum
      · intro other _
        by_cases same : other = pid
        · subst same
          simpa [ClosureLaunch.advance] using (ClosureProgram.step_remaining _ _ unfinished).le
        · simp [ClosureLaunch.advance, Function.update_of_ne same]
      · refine ⟨pid, Finset.mem_range.mpr inside, ?_⟩
        simpa [ClosureLaunch.advance] using ClosureProgram.step_remaining _ _ unfinished

end closure

section compaction

variable {n : Nat} {arrays : TreeArrays L} {kept : List Nat}

theorem oldToNewTensor_getElem? (distinct : kept.Nodup) {new old : Nat}
    (read : kept[new]? = some old) (inside : old < n) :
    (oldToNewTensor n kept)[old]? = some (new : Int) := by
  have within : new < kept.length := (List.getElem?_eq_some_iff.mp read).1
  unfold oldToNewTensor
  rw [scatter_getElem? kept _ _ distinct new old (fun _ => (new : Int)) read
    (by simp [List.getElem?_range within]), List.getElem?_replicate, if_pos inside]
  rfl

theorem renumbered_eq (forest : Forest n arrays.parents) (ascending : kept.Pairwise (· < ·))
    (inside : ∀ node ∈ kept, node < n)
    (closed : ∀ node ∈ kept, ∀ above, Link n arrays.parents node above → above ∈ kept) :
    (gather kept arrays.parents).map (fun parent =>
        if 0 ≤ parent then (oldToNewTensor n kept).getD (max parent 0).toNat 0 else -1) =
      (gather kept arrays.parents).map (oldToNew kept) := by
  have distinct : kept.Nodup := ascending.imp Nat.ne_of_lt
  refine List.map_congr_left fun parent member => ?_
  obtain ⟨node, inKept, read⟩ := List.mem_filterMap.mp member
  rcases forest.parent_cases (inside node inKept) with top | ⟨above, link⟩
  · rw [top, Option.some_inj] at read
    subst read
    simp [oldToNew]
  · have here := closed node inKept above link
    obtain ⟨new, atNew⟩ := List.mem_iff_getElem?.mp here
    rw [link.2, Option.some_inj] at read
    subst read
    have table := oldToNewTensor_getElem? distinct atNew (inside above here)
    have clamped : (max (above : Int) 0).toNat = above := by omega
    rw [if_pos (by omega), oldToNew_kept distinct atNew, clamped, List.getD_eq_getElem?_getD, table]
    rfl

/-- The arrays of the first entries. -/
def TreeArrays.first (count : Nat) (arrays : TreeArrays L) : TreeArrays L where
  tokens := arrays.tokens.take count
  parents := arrays.parents.take count
  lps := arrays.lps.take count
  ranks := arrays.ranks.take count
  blocks := arrays.blocks.take count
  slots := arrays.slots.take count

/-- Gathering marked nodes gives the first entries of their compaction. -/
theorem gatherKept_eq (holds : arrays.Holds n) (forest : Forest n arrays.parents)
    {keep : Nat → Nat} (same : (List.range n).filter (fun node => keep node ≠ 0) = kept)
    (closed : ∀ node ∈ kept, ∀ above, Link n arrays.parents node above → above ∈ kept) :
    gatherKept n keep arrays = (kept.length, (compactArrays kept arrays).first kept.length) := by
  have ascending : kept.Pairwise (· < ·) := same ▸ List.pairwise_lt_range.filter _
  have inside : ∀ node ∈ kept, node < n := fun node member =>
    List.mem_range.mp (List.mem_filter.mp (same ▸ member)).1
  have front {β : Type} {array : List β} (long : n ≤ array.length) :
      (compactArray kept array).take kept.length = gather kept array := by
    have length := gather_length kept array fun node member =>
      Nat.lt_of_lt_of_le (inside node member) long
    exact List.take_left' length
  have relinked : (compactArrays kept arrays).parents.take kept.length =
      (gather kept arrays.parents).map (oldToNew kept) := by
    have length := gather_length kept arrays.parents fun node member =>
      Nat.lt_of_lt_of_le (inside node member) holds.parents
    exact List.take_left' (by rw [List.length_map, length])
  unfold gatherKept TreeArrays.first
  simp only [same, renumbered_eq forest ascending inside closed, relinked]
  simp only [compactArrays, front holds.tokens, front holds.lps, front holds.ranks,
    front holds.blocks, front holds.slots]

end compaction

section agreement

variable {n budget maxTreeDepth : Nat} {arrays : TreeArrays L}
  {topk : List L → Nat → List Nat}

theorem link_take (n : Nat) (parents : List Int) : Link n (parents.take n) = Link n parents := by
  funext node above
  refine propext (and_congr_right fun inside => ?_)
  rw [List.getElem?_take, if_pos inside]

theorem ancestry_take (n : Nat) (parents : List Int) :
    ancestry n (parents.take n) = ancestry n parents := by
  funext node
  ext other
  simp only [ancestry, Finset.mem_filter, link_take]

theorem Forest.take {parents : List Int} (forest : Forest n parents) :
    Forest n (parents.take n) where
  inside := by
    intro node inside
    rw [List.getElem?_take, if_pos inside]
    exact forest.inside node inside
  acyclic := by
    rw [link_take]
    exact forest.acyclic

theorem Compacted.first {before after : TreeArrays L} {kept : List Nat}
    (compacted : Compacted n before kept after) :
    Compacted n before kept (after.first kept.length) := by
  have front {β : Type} {array : List β} {new old : Nat} (read : kept[new]? = some old) :
      (array.take kept.length)[new]? = array[new]? := by
    rw [List.getElem?_take, if_pos (List.getElem?_eq_some_iff.mp read).1]
  refine ⟨compacted.ascending, compacted.inside, compacted.closed, fun new old read => ?_,
    fun new old read => ?_⟩
  · simp only [TreeArrays.first, front read]
    exact compacted.moved new old read
  · simp only [TreeArrays.first, front read]
    exact compacted.relinked new old read

variable [LinearOrder L]

/-- What a launch on a tree leaves marked: the seeds and their ancestors. -/
theorem GpuPruneTree.kept (forest : Forest n arrays.parents) (holds : arrays.Holds n)
    (shallow : ∀ node < n, (ancestry n arrays.parents node).card ≤ maxTreeDepth + 1)
    (selects : ∀ keys count, count ≤ keys.length → TopK keys count (topk keys count))
    {result : Nat × TreeArrays L} (pruned : GpuPruneTree topk n arrays budget maxTreeDepth result) :
    ∃ kept, result = (kept.length, (compactArrays kept arrays).first kept.length) ∧
      Compacted n arrays kept (compactArrays kept arrays) ∧
      ∀ node, node ∈ kept ↔
        SeedAncestor n arrays.parents (seedMarks topk n budget arrays.lps) node := by
  obtain ⟨exceeds, keep, launched, rfl⟩ := pruned
  have chosen := selects (arrays.lps.take n) (min budget n) (by simp [holds.lps])
  have seedsInside : ∀ node, seedMarks topk n budget arrays.lps node ≠ 0 → node < n := by
    intro node seeded
    have member : node ∈ topk (arrays.lps.take n) (min budget n) := by
      by_contra outside
      simp [seedMarks, outside] at seeded
    have bound := chosen.inside node member
    rw [List.length_take] at bound
    omega
  have marks := fun node => ancestorClosure_iff forest.take (by rwa [ancestry_take]) seedsInside
    launched node
  simp only [SeedAncestor, ancestry_take] at marks
  have members : ∀ node, node ∈ (List.range n).filter (fun node => keep node ≠ 0) ↔
      SeedAncestor n arrays.parents (seedMarks topk n budget arrays.lps) node := by
    intro node
    rw [List.mem_filter, List.mem_range, decide_eq_true_eq, marks]
    refine and_iff_right_of_imp ?_
    rintro ⟨seed, inside, -, member⟩
    exact Finset.mem_range.mp (forest.ancestry_subset inside member)
  have closed : ∀ node ∈ (List.range n).filter (fun node => keep node ≠ 0), ∀ above,
      Link n arrays.parents node above →
        above ∈ (List.range n).filter (fun node => keep node ≠ 0) := by
    intro node member above link
    obtain ⟨seed, inside, seeded, below⟩ := (members node).mp member
    refine (members above).mpr ⟨seed, inside, seeded, ?_⟩
    exact forest.mem_ancestry.mpr ((forest.mem_ancestry.mp below).tail link)
  refine ⟨_, gatherKept_eq holds forest rfl closed, ?_, members⟩
  refine compactArrays_compacted holds forest (List.pairwise_lt_range.filter _) ?_ closed
  intro node member
  exact List.mem_range.mp (List.mem_filter.mp member).1

variable [Inhabited L]

/-- Of distinct log-probabilities the greatest are the top of the budget. -/
theorem topK_topBudget (holds : arrays.Holds n) (falling : StrictlyFalling n arrays)
    (exceeds : budget < n) {chosen : List Nat} (selected : TopK (arrays.lps.take n) (min budget n) chosen)
    (node : Nat) : node ∈ chosen ↔ node ∈ topBudget n budget arrays := by
  have size : chosen.length = budget := by
    rw [selected.exactly, Nat.min_eq_left exceeds.le]
  have inside : ∀ other ∈ chosen, other < n := by
    intro other member
    have bound := selected.inside other member
    rw [List.length_take] at bound
    omega
  have higher : ∀ other ∈ chosen, ∀ left < n, left ∉ chosen → arrays.lp left ≤ arrays.lp other :=
    fun other member left leftInside outside => selected.greatest other member left
      (by rw [List.length_take, Nat.min_eq_left holds.lps]; exact leftInside) outside _
      (holds.lp_eq (inside other member)) _ (holds.lp_eq leftInside)
  simp only [topBudget, List.mem_filter, List.mem_range, decide_eq_true_eq]
  constructor
  · intro member
    refine ⟨inside node member, ?_⟩
    have within : (List.range n).filter (fun other => arrays.lp node < arrays.lp other) ⊆
        chosen.erase node := by
      intro other above
      obtain ⟨otherInside, lower⟩ := List.mem_filter.mp above
      have lower : arrays.lp node < arrays.lp other := by simpa using lower
      have proper : other ≠ node := fun same => lt_irrefl _ (same ▸ lower)
      refine (List.mem_erase_of_ne proper).mpr ?_
      by_contra outside
      exact absurd (higher node member other (List.mem_range.mp otherInside) outside)
        (not_le.mpr lower)
    have few := ((List.nodup_range.filter _).subperm within).length_le
    have some := List.length_pos_of_mem member
    rw [List.length_erase_of_mem member] at few
    omega
  · rintro ⟨nodeInside, few⟩
    by_contra outside
    have within : chosen ⊆
        (List.range n).filter (fun other => arrays.lp node < arrays.lp other) := by
      intro other member
      have atLeast := higher other member node nodeInside outside
      refine List.mem_filter.mpr ⟨List.mem_range.mpr (inside other member), ?_⟩
      refine decide_eq_true (lt_of_le_of_ne atLeast fun same => outside ?_)
      exact falling.injective holds nodeInside (inside other member) same ▸ member
    have many := (selected.distinct.subperm within).length_le
    omega

theorem topBudget_closed (forest : Forest n arrays.parents) (falling : StrictlyFalling n arrays)
    {node above : Nat} (member : node ∈ topBudget n budget arrays)
    (chain : above ∈ ancestry n arrays.parents node) : above ∈ topBudget n budget arrays := by
  rcases Relation.reflTransGen_iff_eq_or_transGen.mp (forest.mem_ancestry.mp chain) with
    rfl | proper
  · exact member
  · simp only [topBudget, List.mem_filter, List.mem_range, decide_eq_true_eq] at member ⊢
    have higher := falling.ancestor proper
    refine ⟨Finset.mem_range.mp (forest.ancestry_subset member.1 chain), ?_⟩
    refine (List.Sublist.length_le ?_).trans_lt member.2
    refine List.monotone_filter_right _ fun other lower => ?_
    simp only [decide_eq_true_eq] at lower ⊢
    exact higher.trans lower

theorem eq_of_ascending {first second : List Nat} (ascending : first.Pairwise (· < ·))
    (ascending' : second.Pairwise (· < ·)) (same : ∀ node, node ∈ first ↔ node ∈ second) :
    first = second := by
  have perm : first.Perm second :=
    (List.perm_ext_iff_of_nodup (ascending.imp Nat.ne_of_lt) (ascending'.imp Nat.ne_of_lt)).mpr same
  exact perm.eq_of_pairwise (fun _ _ _ _ lower upper => absurd (lower.trans upper) (Nat.lt_irrefl _))
    ascending ascending'

/-- The device pruning ends in every interleaving with a tree whose parents are kept and
renumbered. When log-probabilities fall strictly it is the tree of the greedy pruning. -/
theorem gpuPruneTree_agrees (argsort : List L → List Nat) (topk : List L → Nat → List Nat)
    (sorts : ∀ keys, ArgsortDescending keys (argsort keys))
    (selects : ∀ keys count, count ≤ keys.length → TopK keys count (topk keys count))
    (n budget maxTreeDepth : Nat) (arrays : TreeArrays L) (holds : arrays.Holds n)
    (forest : Forest n arrays.parents)
    (shallow : ∀ node < n, (ancestry n arrays.parents node).card ≤ maxTreeDepth + 1)
    (exceeds : budget < n) :
    (∃ result, GpuPruneTree topk n arrays budget maxTreeDepth result) ∧
    ∀ result, GpuPruneTree topk n arrays budget maxTreeDepth result →
      (∃ kept, result.1 = kept.length ∧ Compacted n arrays kept result.2) ∧
      (StrictlyFalling n arrays → result.1 = budget ∧
        ∃ after, pruneTreeNp false argsort n arrays budget = some (result.1, after) ∧
          result.2 = after.first result.1) := by
  constructor
  · obtain ⟨keep, launched⟩ := exists_finished
      (.start _ rfl : (closureSystem (arrays.parents.take n) n maxTreeDepth
        (seedMarks topk n budget arrays.lps)).Reachable _)
    exact ⟨gatherKept n keep arrays, exceeds, keep, launched, rfl⟩
  · intro result pruned
    obtain ⟨kept, rfl, compacted, members⟩ :=
      GpuPruneTree.kept forest holds shallow selects pruned
    refine ⟨⟨kept, rfl, compacted.first⟩, fun falling => ?_⟩
    obtain ⟨greedy, ran, prunedGreedy, top⟩ := forest.pruneTreeNp_greedy sorts holds
      (Nat.not_le.mpr exceeds)
    have seeds := topK_topBudget holds falling exceeds
      (selects (arrays.lps.take n) (min budget n) (by simp [holds.lps]))
    have marked : ∀ node, seedMarks topk n budget arrays.lps node ≠ 0 ↔
        node ∈ topBudget n budget arrays := by
      intro node
      rw [← seeds]
      simp [seedMarks]
    have same : kept = greedy := by
      refine eq_of_ascending compacted.ascending prunedGreedy.ascending fun node => ?_
      rw [members, top falling]
      constructor
      · rintro ⟨seed, -, seeded, member⟩
        exact topBudget_closed forest falling ((marked seed).mp seeded) member
      · intro member
        have inside := List.mem_range.mp (List.mem_filter.mp member).1
        exact ⟨node, inside, (marked node).mpr member, forest.needs.self node⟩
    rw [same]
    refine ⟨?_, _, ran, rfl⟩
    rw [prunedGreedy.exactly, Nat.min_eq_right exceeds.le]

omit [Inhabited L] in
/-- The front of a sorted order is one choice of the greatest. -/
theorem topK_of_sorted {keys : List L} {order : List Nat} (sorted : ArgsortDescending keys order)
    (count : Nat) (enough : count ≤ keys.length) : TopK keys count (order.take count) where
  distinct := (sorted.positions.nodup_iff.mpr List.nodup_range).sublist (List.take_sublist _ _)
  exactly := by
    rw [List.length_take, sorted.positions.length_eq, List.length_range]
    omega
  inside := by
    intro node member
    exact List.mem_range.mp (sorted.positions.mem_iff.mp (List.mem_of_mem_take member))
  greatest := by
    intro node member other inside outside
    have listed := sorted.positions.mem_iff.mpr (List.mem_range.mpr inside)
    have falling := sorted.falling
    rw [← List.take_append_drop count order] at listed falling
    have later := (List.mem_append.mp listed).resolve_left outside
    exact (List.pairwise_append.mp falling).2.2 node member other later

/-- The device pruning of the small tree agrees with the greedy one. -/
theorem gpuPruneTree_agrees_repeated :
    ∃ result, GpuPruneTree (fun keys count => (stableArgsort keys).take count) 4 repeatedTree 3 20
        result ∧ result.1 = 3 ∧
      ∃ after, pruneTreeNp false stableArgsort 4 repeatedTree 3 = some (result.1, after) ∧
        result.2 = after.first result.1 := by
  obtain ⟨holds, forest, falling⟩ := repeatedTree_forest
  have shallow : ∀ node < 4, (ancestry 4 repeatedTree.parents node).card ≤ 20 + 1 := by
    intro node inside
    have few := Finset.card_le_card (forest.ancestry_subset inside)
    rw [Finset.card_range] at few
    omega
  obtain ⟨⟨result, pruned⟩, all⟩ := gpuPruneTree_agrees stableArgsort
    (fun keys count => (stableArgsort keys).take count) stableArgsort_sorts
    (fun keys => topK_of_sorted (stableArgsort_sorts keys)) 4 3 20 repeatedTree holds forest shallow
    (by decide)
  exact ⟨result, pruned, (all result pruned).2 falling⟩

end agreement

end SpecBlock.Building
