import Mathlib.Data.Prod.Lex
import SpecBlock.Building.DedupAgreement
import SpecBlock.Building.RowDedup

/-!
# What merging the duplicates of a row keeps

With ties broken by the index, the nodes of a row have distinct scores, and each pass of the kernel
is a pass of the abstract merging as long as the best node of every group has the sign bit set. Then
every group of duplicates is left with its best node, parents are live and one depth above, and all
branches survive.

A log-probability of positive zero is the greatest there is, but its bits turned over are negative as
a 64-bit integer, below the zero the atomic maximum starts from. Its node is struck out, also when it
has no duplicate at all.
-/

namespace SpecBlock.Building

open Stores FloatBits Merging

/-- The rank of a node among its duplicates: by log-probability, the lower index first. -/
def rowScore (row : RowTensors) (pid : Nat) : Int ×ₗ Int := toLex ((row.lps pid).value, -(pid : Int))

/-- A row the kernel is launched on: keys fit, log-probabilities are finite and not positive, the
passes and the walk reach all depths, and the compact tile is as wide as any depth. -/
structure RawRow (n N compactN maxDedupDepth maxWalkDepth : Nat) (tokens : Nat → Nat)
    (row : RowTensors) : Prop where
  packable : Packable n N tokens row.parents
  finite : ∀ pid < n, row.lps pid ≠ .negInfinity
  nonpositive : ∀ pid < n, (row.lps pid).value ≤ 0
  some_pass : 0 < maxDedupDepth
  shallow : ∀ pid < n, ¬DeeperThan maxDedupDepth row.parents pid
  reached : ∀ pid < n, ¬DeeperThan maxWalkDepth row.parents pid
  narrow : ∀ depth, Nat.count (fun pid => laneDepth n maxDedupDepth row.parents pid = depth) n ≤ compactN

/-- The nodes merged into one: those with the tokens of a node under the same root. -/
def Duplicates (n maxDedupDepth : Nat) (tokens : Nat → Nat) (row : RowTensors) : Nat → Nat → Prop :=
  Merged (laneDepth n maxDedupDepth row.parents) (linkOf n row.parents) tokens maxDedupDepth

/-- The duplicates of a row are merged: no two live nodes below a root share parent and token; of
duplicates the one with the greatest log-probability survives, the first of several; parents of live
nodes are live and one depth above; and no branch is lost. -/
structure MergedRight (n maxDedupDepth : Nat) (tokens : Nat → Nat) (row result : RowTensors) : Prop where
  separate : ∀ first < n, ∀ second < n, 0 < laneDepth n maxDedupDepth row.parents first →
    Live result.tree first → Live result.tree second →
    result.parents first = result.parents second → tokens first = tokens second → first = second
  survivor : ∀ pid < n, Live result.tree pid ↔
    ∀ other, Duplicates n maxDedupDepth tokens row pid other → rowScore row other ≤ rowScore row pid
  unchanged : ∀ pid < n, Live result.tree pid → result.lps pid = row.lps pid
  parents : ∀ pid < n, Live result.tree pid →
    row.parents pid = -1 ∧ result.parents pid = -1 ∨
      ∃ parent : Nat, result.parents pid = parent ∧ parent < n ∧ Live result.tree parent ∧
        laneDepth n maxDedupDepth row.parents parent + 1 = laneDepth n maxDedupDepth row.parents pid
  paths : branches n tokens result.tree = branches n tokens row.tree

/-- Every positive zero below a root has an earlier duplicate that is a negative zero. -/
def ZerosShadowed (n maxDedupDepth : Nat) (tokens : Nat → Nat) (row : RowTensors) : Prop :=
  ∀ pid < n, 0 < laneDepth n maxDedupDepth row.parents pid → (row.lps pid).bits = 0 →
    ∃ other < pid, Duplicates n maxDedupDepth tokens row pid other ∧
      (row.lps other).bits = 2147483648

section invariant

variable {n N compactN maxDedupDepth maxWalkDepth depth : Nat} {tokens : Nat → Nat}
  {row current : RowTensors}

theorem rowScore_distinct {level : Nat → Nat} : Distinct level (rowScore row) := by
  intro first second _ _ same
  have parts := Prod.mk.inj (toLex.injective same)
  omega

/-- A better score is a greater log-probability, or the lower index of equal ones. -/
theorem rowScore_le {first second : Nat} : rowScore row first ≤ rowScore row second ↔
    (row.lps first).value < (row.lps second).value ∨
      (row.lps first).value = (row.lps second).value ∧ second ≤ first := by
  have order : -(first : Int) ≤ -(second : Int) ↔ second ≤ first := by omega
  rw [rowScore, rowScore, Prod.Lex.toLex_le_toLex]
  exact or_congr_right (and_congr_right fun _ => order)

/-- The best of the nodes merged with a node by the first passes. -/
def RowBest (n maxDedupDepth : Nat) (tokens : Nat → Nat) (row : RowTensors) : Nat → Nat → Nat → Prop :=
  Best (laneDepth n maxDedupDepth row.parents) (linkOf n row.parents) tokens (rowScore row)

/-- The invariant of the passes: the row represents what has been merged, nodes that are left have
their log-probability, and keys fit. -/
structure RowMerging (n N maxDedupDepth depth : Nat) (tokens : Nat → Nat)
    (row current : RowTensors) : Prop where
  represents : Represents (laneDepth n maxDedupDepth row.parents) (linkOf n row.parents) tokens
    (rowScore row) depth (standing n current.tree)
  unchanged : ∀ pid < n, Live current.tree pid → current.lps pid = row.lps pid
  packable : Packable n N tokens current.parents

/-- At the depth of a pass the siblings of a node are its twins. -/
theorem RowMerging.sibling_iff
    (rawRow : RawRow n N compactN maxDedupDepth maxWalkDepth tokens row)
    (state : RowMerging n N maxDedupDepth depth tokens row current) {pid other : Nat} :
    Sibling (laneDepth n maxDedupDepth row.parents) tokens (standing n current.tree) (depth + 1) pid
        other ↔
      RowTwin n depth tokens (laneDepth n maxDedupDepth row.parents) current pid other := by
  have levels := levelled rawRow.packable.parent_inside rawRow.some_pass
  constructor
  · intro sibling
    have within := lt_of_laneDepth_pos (laneDepth_pos sibling.level_eq)
    have within' := lt_of_laneDepth_pos (laneDepth_pos sibling.level_eq')
    obtain ⟨upper, link⟩ := levels.parent pid (laneDepth_pos sibling.level_eq)
    obtain ⟨best, now, _⟩ := state.represents.links pid upper link
    exact ⟨rowAtD_iff.mp ⟨sibling.level_eq, within, sibling.live within⟩,
      rowAtD_iff.mp ⟨sibling.level_eq', within', sibling.live' within'⟩,
      (linkOf_eq_iff now within').mp sibling.parent, sibling.token_eq⟩
  · intro twin
    obtain ⟨level, within, live⟩ := rowAtD_iff.mpr twin.at_d
    obtain ⟨level', within', live'⟩ := rowAtD_iff.mpr twin.at_d'
    obtain ⟨upper, link⟩ := levels.parent pid (laneDepth_pos level)
    obtain ⟨best, now, _⟩ := state.represents.links pid upper link
    exact ⟨level, level', fun _ => live, fun _ => live', (linkOf_eq_iff now within').mpr twin.parent,
      twin.token⟩

/-- Where the best nodes of a depth have the sign bit set, the winner of a group is its best node. -/
theorem RowMerging.winner_iff
    (rawRow : RawRow n N compactN maxDedupDepth maxWalkDepth tokens row)
    (state : RowMerging n N maxDedupDepth depth tokens row current)
    (signed : ∀ pid, laneDepth n maxDedupDepth row.parents pid = depth + 1 →
      RowBest n maxDedupDepth tokens row (depth + 1) pid pid → (row.lps pid).negative = true)
    {pid : Nat}
    (here : IsAtD n (depth + 1) (liveDepths current.lps (laneDepth n maxDedupDepth row.parents)) pid) :
    (∃ best, RowBest n maxDedupDepth tokens row (depth + 1) pid best) ∧
    ∀ winner, Winner current.lps
        (RowTwin n depth tokens (laneDepth n maxDedupDepth row.parents) current pid) winner ↔
      RowBest n maxDedupDepth tokens row (depth + 1) pid winner := by
  have levels := levelled rawRow.packable.parent_inside rawRow.some_pass
  have level := (rowAtD_iff.mpr here).1
  have twin_iff {other : Nat} :
      RowTwin n depth tokens (laneDepth n maxDedupDepth row.parents) current pid other ↔
        Merged (laneDepth n maxDedupDepth row.parents) (linkOf n row.parents) tokens (depth + 1) pid
          other :=
    (state.sibling_iff rawRow).symm.trans (state.represents.sibling_iff levels rowScore_distinct level)
  have value {other : Nat}
      (twin : RowTwin n depth tokens (laneDepth n maxDedupDepth row.parents) current pid other) :
      current.lps other = row.lps other := by
    obtain ⟨_, within, live⟩ := rowAtD_iff.mpr twin.at_d'
    exact state.unchanged other within live
  have won {best : Nat} (chosen : RowBest n maxDedupDepth tokens row (depth + 1) pid best) :
      Winner current.lps
        (RowTwin n depth tokens (laneDepth n maxDedupDepth row.parents) current pid) best := by
    have member := twin_iff.mpr chosen.merged
    have level' := (rowAtD_iff.mpr member.at_d').1
    have order {other : Nat}
        (twin : RowTwin n depth tokens (laneDepth n maxDedupDepth row.parents) current pid other) :=
      rowScore_le.mp (chosen.greatest other (twin_iff.mp twin))
    refine ⟨member, ?_, ?_, ?_⟩
    · rw [value member]
      exact signed best level' chosen.self
    · intro other twin _
      rw [value member, value twin, Number.le_iff]
      have := order twin
      omega
    · intro other twin _ least
      rw [value member, value twin, Number.le_iff] at least
      have := order twin
      omega
  obtain ⟨best, chosen⟩ : ∃ best, RowBest n maxDedupDepth tokens row (depth + 1) pid best :=
    exists_best levels (finite_below n maxDedupDepth row.parents) pid
  refine ⟨⟨best, chosen⟩, fun winner => ⟨fun wins => ?_, won⟩⟩
  rw [wins.unique (won chosen)]
  exact chosen

theorem RawRow.room (rawRow : RawRow n N compactN maxDedupDepth maxWalkDepth tokens row) :
    nAtD n N (depth + 1) (laneDepth n maxDedupDepth row.parents) current ≤ compactN := by
  refine Nat.le_trans ?_ (rawRow.narrow (depth + 1))
  rw [nAtD, Nat.count_eq_card_filter_range, Nat.count_eq_card_filter_range]
  apply Finset.card_le_card
  intro pid member
  obtain ⟨level, within, _⟩ := (Finset.mem_filter.mp member).2
  exact Finset.mem_filter.mpr ⟨Finset.mem_range.mpr within, level⟩

/-- A pass over a depth whose best nodes have the sign bit set keeps the invariant. -/
theorem RowMerging.step {registers : RowRegisters}
    (rawRow : RawRow n N compactN maxDedupDepth maxWalkDepth tokens row)
    (state : RowMerging n N maxDedupDepth depth tokens row registers.toRowTensors)
    (signed : ∀ pid, laneDepth n maxDedupDepth row.parents pid = depth + 1 →
      RowBest n maxDedupDepth tokens row (depth + 1) pid pid → (row.lps pid).negative = true) :
    RowMerging n N maxDedupDepth (depth + 1) tokens row
      (rowPass n N compactN tokens (laneDepth n maxDedupDepth row.parents) (depth + 1)
        registers).toRowTensors := by
  have levels := levelled rawRow.packable.parent_inside rawRow.some_pass
  have winners {pid : Nat} (here : IsAtD n (depth + 1)
      (liveDepths registers.lps (laneDepth n maxDedupDepth row.parents)) pid) :=
    state.winner_iff rawRow signed here
  have merges : Merges n
      (Loses n depth tokens (laneDepth n maxDedupDepth row.parents) registers.toRowTensors)
      (fun pid => Winner registers.lps (RowTwin n depth tokens
        (laneDepth n maxDedupDepth row.parents) registers.toRowTensors pid))
      registers.tree (rowPass n N compactN tokens (laneDepth n maxDedupDepth row.parents) (depth + 1)
        registers).tree := by
    refine rowPass_merges state.packable rawRow.room fun pid here => ?_
    obtain ⟨⟨best, chosen⟩, iff⟩ := winners here
    exact ⟨best, ((iff best).mpr chosen).member, ((iff best).mpr chosen).signed⟩
  have beaten_iff (pid : Nat) : Beaten (laneDepth n maxDedupDepth row.parents) tokens (rowScore row)
      (standing n registers.tree) (depth + 1) pid ↔
        Loses n depth tokens (laneDepth n maxDedupDepth row.parents) registers.toRowTensors pid := by
    constructor
    · intro beaten
      obtain ⟨_, worse⟩ := (state.represents.beaten_iff levels rowScore_distinct pid).mp beaten
      obtain ⟨other, sibling, _⟩ := beaten
      obtain ⟨⟨best, chosen⟩, iff⟩ := winners ((state.sibling_iff rawRow).mp sibling).at_d
      exact ⟨best, (iff best).mpr chosen, fun same => worse (same ▸ chosen.self)⟩
    · rintro ⟨winner, won, other⟩
      have chosen := ((winners won.member.at_d).2 winner).mp won
      refine (state.represents.beaten_iff levels rowScore_distinct pid).mpr
        ⟨(rowAtD_iff.mpr won.member.at_d).1, fun best => other ?_⟩
      exact best.unique rowScore_distinct chosen
  have round : Pass (laneDepth n maxDedupDepth row.parents) tokens (rowScore row) (depth + 1)
      (standing n registers.tree) (standing n (rowPass n N compactN tokens
        (laneDepth n maxDedupDepth row.parents) (depth + 1) registers).tree) := by
    refine ⟨?_, ?_, ?_, ?_⟩
    · intro pid
      rw [beaten_iff]
      by_cases out : Loses n depth tokens (laneDepth n maxDedupDepth row.parents)
          registers.toRowTensors pid
      · obtain ⟨winner, won, _⟩ := id out
        simp only [standing, Live, out, not_true, and_false, iff_false]
        exact fun alive => alive won.member.at_d.2 (merges.lps_struck pid out)
      · simp only [standing, Live, merges.lps_kept pid out, out, not_false_eq_true, and_true]
    · intro pid top
      refine linkOf_eq_none.mpr fun within => ?_
      have root := linkOf_eq_none.mp top within
      rw [merges.stayed pid (by rintro ⟨_, parent, link, _⟩; omega)]
      exact root
    · intro pid upper now unbeaten
      rw [beaten_iff] at unbeaten
      obtain ⟨within, parent⟩ := linkOf_eq_some.mp now
      refine linkOf_eq_some.mpr ⟨within, ?_⟩
      rw [merges.stayed pid, parent]
      rintro ⟨_, parent', link, out⟩
      obtain rfl : parent' = upper := by omega
      exact unbeaten out
    · intro pid upper now beaten
      have out := (beaten_iff upper).mp beaten
      obtain ⟨within, parent⟩ := linkOf_eq_some.mp now
      obtain ⟨winner, won, moved⟩ := merges.moved pid within upper parent out
      have chosen := ((winners won.member.at_d).2 winner).mp won
      refine ⟨winner, linkOf_eq_some.mpr ⟨within, moved⟩, (state.sibling_iff rawRow).mpr won.member, ?_⟩
      intro other sibling
      exact chosen.greatest other ((state.represents.sibling_iff levels rowScore_distinct
        sibling.level_eq).mp sibling)
  refine ⟨state.represents.step levels rowScore_distinct round, ?_, ?_⟩
  · intro pid within alive
    by_cases out : Loses n depth tokens (laneDepth n maxDedupDepth row.parents)
        registers.toRowTensors pid
    · exact absurd (merges.lps_struck pid out) alive
    · have kept := merges.lps_kept pid out
      unfold Live at alive
      rw [kept] at alive
      exact kept.trans (state.unchanged pid within alive)
  · exact merges.packable (fun _ _ won => won.member.at_d'.2) state.packable

/-- The registers once the parents are loaded. -/
def rowLoaded (n : Nat) (scratch : Nat → Int) (row : RowTensors) : RowRegisters where
  parents := fun pid => if pid < n then row.parents pid else -1
  lps := row.lps
  nodeState := scratch

/-- The registers of a row after some passes. -/
def rowRun (n N compactN maxDedupDepth : Nat) (tokens : Nat → Nat) (scratch : Nat → Int)
    (row : RowTensors) (depth : Nat) : RowRegisters :=
  rowPasses n N compactN tokens (laneDepth n maxDedupDepth row.parents) (rowLoaded n scratch row) depth

theorem RowMerging.load (rawRow : RawRow n N compactN maxDedupDepth maxWalkDepth tokens row)
    (scratch : Nat → Int) :
    RowMerging n N maxDedupDepth 0 tokens row (rowLoaded n scratch row).toRowTensors where
  represents := by
    refine Represents.start (levelled rawRow.packable.parent_inside rawRow.some_pass) ?_ ?_
    · funext pid
      by_cases within : pid < n
      · simp [standing, linkOf, RowTensors.tree, rowLoaded, within]
      · simp [standing, linkOf, within]
    · exact fun pid within => rawRow.finite pid within
  unchanged := fun _ _ _ => rfl
  packable := by
    have loaded (pid : Nat) (within : pid < n) :
        (rowLoaded n scratch row).parents pid = row.parents pid := if_pos within
    exact ⟨rawRow.packable.covered, rawRow.packable.room, rawRow.packable.token_small,
      fun pid within => (loaded pid within).symm ▸ rawRow.packable.parent_inside pid within⟩

/-- The invariant holds after the passes over depths whose best nodes have the sign bit set. -/
theorem RowMerging.passes (rawRow : RawRow n N compactN maxDedupDepth maxWalkDepth tokens row)
    (scratch : Nat → Int) {last : Nat}
    (signed : ∀ depth < last, ∀ pid, laneDepth n maxDedupDepth row.parents pid = depth + 1 →
      RowBest n maxDedupDepth tokens row (depth + 1) pid pid → (row.lps pid).negative = true) :
    RowMerging n N maxDedupDepth last tokens row
      (rowRun n N compactN maxDedupDepth tokens scratch row last).toRowTensors := by
  induction last with
  | zero => exact RowMerging.load rawRow scratch
  | succ last ih =>
    have before := ih fun depth early => signed depth (Nat.lt_succ_of_lt early)
    exact before.step rawRow (signed last (Nat.lt_succ_self last))

theorem rowRun_dead (scratch : Nat → Int) {pid first last : Nat} (order : first ≤ last)
    (dead : (rowRun n N compactN maxDedupDepth tokens scratch row first).lps pid = .negInfinity) :
    (rowRun n N compactN maxDedupDepth tokens scratch row last).lps pid = .negInfinity := by
  induction last, order using Nat.le_induction with
  | base => exact dead
  | succ last order ih =>
    refine store_same _ _ _ ?_ ih
    intro entry member
    obtain ⟨_, _, rfl⟩ := List.mem_map.mp member
    rfl

/-- Positive zeros have earlier negative ones among their duplicates exactly when the best node of
every group below a root has the sign bit set. -/
theorem zerosShadowed_iff (rawRow : RawRow n N compactN maxDedupDepth maxWalkDepth tokens row) :
    ZerosShadowed n maxDedupDepth tokens row ↔ ∀ depth < maxDedupDepth, ∀ pid,
      laneDepth n maxDedupDepth row.parents pid = depth + 1 →
        RowBest n maxDedupDepth tokens row (depth + 1) pid pid → (row.lps pid).negative = true := by
  have levels := levelled rawRow.packable.parent_inside rawRow.some_pass
  have same {pid other depth : Nat} (early : depth < maxDedupDepth)
      (level : laneDepth n maxDedupDepth row.parents pid = depth + 1) :
      Duplicates n maxDedupDepth tokens row pid other ↔
        Merged (laneDepth n maxDedupDepth row.parents) (linkOf n row.parents) tokens (depth + 1) pid
          other := merged_iff_of_le level.le early
  constructor
  · intro shadowed depth early pid level best
    have within := lt_of_laneDepth_pos (laneDepth_pos level)
    by_contra unsigned
    have zero := value_of_unsigned (rawRow.nonpositive pid within) (eq_false_of_ne_true unsigned)
    have none_left : (row.lps pid).magnitude = 0 := by
      simpa [Number.value, eq_false_of_ne_true unsigned] using zero
    obtain ⟨other, before, merged, bits⟩ := shadowed pid within (laneDepth_pos level)
      (Number.bits_positive_zero.mpr ⟨eq_false_of_ne_true unsigned, none_left⟩)
    have value := Number.value_of_zero (Number.bits_negative_zero.mp bits).2
    have order := rowScore_le.mp (best.greatest other ((same early level).mp merged))
    omega
  · intro signed pid within low blank
    obtain ⟨unsigned, none_left⟩ := Number.bits_positive_zero.mp blank
    obtain ⟨depth, level⟩ := Nat.exists_eq_add_one.mpr low
    have deep : depth < maxDedupDepth := by
      have clamp := walkDepth_clamp row.parents maxDedupDepth pid
      rw [laneDepth, if_pos within] at level
      omega
    obtain ⟨best, chosen⟩ : ∃ best, RowBest n maxDedupDepth tokens row (depth + 1) pid best :=
      exists_best levels (finite_below n maxDedupDepth row.parents) pid
    have level' := chosen.merged.level_eq.symm.trans level
    have within' := lt_of_laneDepth_pos (laneDepth_pos level')
    have sign := signed depth deep best level' chosen.self
    have order := rowScore_le.mp (chosen.greatest pid (Merged.refl levels pid))
    have zero := Number.value_of_zero none_left
    have high := rawRow.nonpositive best within'
    have minus : (row.lps best).value = -((row.lps best).magnitude : Int) := by
      simp [Number.value, sign]
    have different : best ≠ pid := by
      rintro rfl
      exact Bool.false_ne_true (unsigned.symm.trans sign)
    exact ⟨best, by omega, (same deep level).mpr chosen.merged,
      Number.bits_negative_zero.mpr ⟨sign, by omega⟩⟩

theorem RowMerging.mergedRight (rawRow : RawRow n N compactN maxDedupDepth maxWalkDepth tokens row)
    (state : RowMerging n N maxDedupDepth maxDedupDepth tokens row current) :
    MergedRight n maxDedupDepth tokens row current := by
  have levels := levelled rawRow.packable.parent_inside rawRow.some_pass
  have original {pid parent : Nat} (within : pid < n) (link : current.parents pid = parent) :
      ∃ upper, linkOf n row.parents pid = some upper := by
    cases original : linkOf n row.parents pid with
    | none =>
      have top := linkOf_eq_none.mp (state.represents.tops pid original) within
      have below : current.tree.parents pid = parent := link
      omega
    | some upper => exact ⟨upper, rfl⟩
  refine ⟨?_, ?_, state.unchanged, ?_, ?_⟩
  · intro first within second within' low live live' parents token
    obtain ⟨upper, above⟩ := levels.parent first low
    obtain ⟨best, now, _⟩ := state.represents.links first upper above
    have link : current.parents first = best := (linkOf_eq_some.mp now).2
    obtain ⟨upper', above'⟩ := original within' (parents.symm.trans link)
    have together : (standing n current.tree).parents first =
        (standing n current.tree).parents second := (linkOf_eq_iff now within').mpr parents
    rcases state.represents.separate levels rowScore_distinct (fun _ => live) (fun _ => live') above
      above' together token with same | ⟨deep, _⟩
    · exact same
    · exact absurd (deeperThan_of_laneDepth above rawRow.some_pass deep) (rawRow.shallow first within)
  · intro pid within
    have left : Live current.tree pid ↔ RowBest n maxDedupDepth tokens row maxDedupDepth pid pid := by
      rw [RowBest, ← state.represents.left pid]
      exact ⟨fun live _ => live, fun live => live within⟩
    exact left.trans ⟨fun best => best.greatest, fun greatest => ⟨Merged.refl levels pid, greatest⟩⟩
  · intro pid within live
    cases above : linkOf n row.parents pid with
    | none =>
      have root := linkOf_eq_none.mp above within
      have top := linkOf_eq_none.mp (state.represents.tops pid above) within
      have root' := rawRow.packable.parent_inside pid within
      have top' := state.packable.parent_inside pid within
      have same : current.tree.parents pid = current.parents pid := rfl
      exact .inl ⟨by omega, by omega⟩
    | some upper =>
      obtain ⟨best, now, chosen⟩ := state.represents.links pid upper above
      have link : current.parents pid = best := (linkOf_eq_some.mp now).2
      have inside := state.packable.parent_inside pid within
      have within' : best < n := by omega
      have not_last : laneDepth n maxDedupDepth row.parents upper ≠ maxDedupDepth := fun deep =>
        absurd (deeperThan_of_laneDepth above rawRow.some_pass deep) (rawRow.shallow pid within)
      have level := levels.below pid upper above
      have level' := chosen.merged.level_eq
      have bound : laneDepth n maxDedupDepth row.parents upper ≤ maxDedupDepth := by
        have clamp := walkDepth_clamp row.parents maxDedupDepth upper
        rw [laneDepth]
        split <;> omega
      exact .inr ⟨best, link, within', (state.represents.left best).mpr chosen.self within', by omega⟩
  · show branches n tokens current.tree = branches n tokens row.tree
    exact branches_of_represents levels rawRow.finite state.represents

end invariant

section kernel

variable {n N compactN maxDedupDepth maxWalkDepth : Nat} {tokens : Nat → Nat} {row : RowTensors}

/-- The nodes of a merged row and their parents and log-probabilities decide whether it is right. -/
theorem MergedRight.of_nodes {result result' : RowTensors}
    (same : ∀ pid < n, result'.parents pid = result.parents pid ∧ result'.lps pid = result.lps pid)
    (right : MergedRight n maxDedupDepth tokens row result) :
    MergedRight n maxDedupDepth tokens row result' := by
  have live {pid : Nat} (within : pid < n) : Live result'.tree pid ↔ Live result.tree pid := by
    show result'.lps pid ≠ .negInfinity ↔ result.lps pid ≠ .negInfinity
    rw [(same pid within).2]
  refine ⟨?_, ?_, ?_, ?_, ?_⟩
  · intro first within second within' low alive alive' parents token
    rw [(same first within).1, (same second within').1] at parents
    exact right.separate first within second within' low ((live within).mp alive)
      ((live within').mp alive') parents token
  · exact fun pid within => (live within).trans (right.survivor pid within)
  · intro pid within alive
    exact (same pid within).2.trans (right.unchanged pid within ((live within).mp alive))
  · intro pid within alive
    rw [(same pid within).1]
    rcases right.parents pid within ((live within).mp alive) with root | ⟨parent, link, inside, up⟩
    · exact .inl root
    · exact .inr ⟨parent, link, inside, (live inside).mpr up.1, up.2⟩
  · rw [← right.paths]
    have links : linkOf n result'.tree.parents = linkOf n result.tree.parents := by
      funext pid
      by_cases within : pid < n
      · show linkOf n result'.parents pid = linkOf n result.parents pid
        rw [linkOf, linkOf, (same pid within).1]
      · simp [linkOf, within]
    ext branch
    constructor
    · rintro ⟨pid, within, alive, spelled⟩
      exact ⟨pid, within, (live within).mp alive, links ▸ spelled⟩
    · rintro ⟨pid, within, alive, spelled⟩
      exact ⟨pid, within, (live within).mpr alive, links.symm ▸ spelled⟩

theorem kernel_nodes (rawRow : RawRow n N compactN maxDedupDepth maxWalkDepth tokens row)
    (scratch : Nat → Int) (pid : Nat) (within : pid < n) :
    (dedupTreeRowsByDepthKernel tokens n N compactN maxDedupDepth maxWalkDepth scratch row).parents pid =
        (rowRun n N compactN maxDedupDepth tokens scratch row maxDedupDepth).parents pid ∧
      (dedupTreeRowsByDepthKernel tokens n N compactN maxDedupDepth maxWalkDepth scratch row).lps pid =
        (rowRun n N compactN maxDedupDepth tokens scratch row maxDedupDepth).lps pid := by
  have depths : laneDepth n maxWalkDepth row.parents = laneDepth n maxDedupDepth row.parents := by
    rw [← referenceDepths_eq rawRow.shallow rawRow.reached]
    funext node
    rw [referenceDepths, laneDepth, referenceDepth_eq]
  rw [dedupTreeRowsByDepthKernel, depths]
  exact ⟨if_pos within, rfl⟩

/-- A row without a positive zero that its duplicates do not precede is merged right. -/
theorem mergedRight_of_shadowed
    (rawRow : RawRow n N compactN maxDedupDepth maxWalkDepth tokens row) (scratch : Nat → Int)
    (shadowed : ZerosShadowed n maxDedupDepth tokens row) :
    MergedRight n maxDedupDepth tokens row
      (dedupTreeRowsByDepthKernel tokens n N compactN maxDedupDepth maxWalkDepth scratch row) := by
  have state := RowMerging.passes rawRow scratch ((zerosShadowed_iff rawRow).mp shadowed)
  exact (state.mergedRight rawRow).of_nodes (kernel_nodes rawRow scratch)

/-- A row that is merged right has no such zero: the first pass that came to one would have struck
the best node of its group out. -/
theorem shadowed_of_mergedRight
    (rawRow : RawRow n N compactN maxDedupDepth maxWalkDepth tokens row) (scratch : Nat → Int)
    (right : MergedRight n maxDedupDepth tokens row
      (dedupTreeRowsByDepthKernel tokens n N compactN maxDedupDepth maxWalkDepth scratch row)) :
    ZerosShadowed n maxDedupDepth tokens row := by
  rw [zerosShadowed_iff rawRow]
  intro depth
  induction depth using Nat.strong_induction_on with
  | _ depth ih =>
    intro early pid level best
    have within := lt_of_laneDepth_pos (laneDepth_pos level)
    by_contra unsigned
    have state := RowMerging.passes rawRow scratch fun earlier before =>
      ih earlier before (Nat.lt_trans before early)
    have levels := levelled rawRow.packable.parent_inside rawRow.some_pass
    have alive : Live (rowRun n N compactN maxDedupDepth tokens scratch row depth).tree pid :=
      (state.represents.left pid).mpr (Best.untouched levels (by omega)) within
    have here := rowAtD_iff.mp (show RowAtD n (depth + 1) (laneDepth n maxDedupDepth row.parents)
      (rowRun n N compactN maxDedupDepth tokens scratch row depth).toRowTensors pid from
        ⟨level, within, alive⟩)
    have sign : ((rowRun n N compactN maxDedupDepth tokens scratch row depth).lps pid).negative =
        false := by
      rw [state.unchanged pid within alive]
      exact eq_false_of_ne_true unsigned
    have struck : (rowRun n N compactN maxDedupDepth tokens scratch row (depth + 1)).lps pid =
        .negInfinity := rowPass_unsigned state.packable rawRow.room here sign
    have dead := rowRun_dead scratch early struck
    have whole : ∀ other, Duplicates n maxDedupDepth tokens row pid other →
        rowScore row other ≤ rowScore row pid := fun other merged =>
      best.greatest other ((merged_iff_of_le level.le early).mp merged)
    refine (right.survivor pid within).mpr whole ?_
    exact (kernel_nodes rawRow scratch pid within).2.trans dead

/-- The kernel merges the duplicates of a row as it should exactly when no positive zero below a root
is without an earlier negative one among its duplicates. -/
theorem dedup_tree_row_iff (rawRow : RawRow n N compactN maxDedupDepth maxWalkDepth tokens row)
    (scratch : Nat → Int) :
    MergedRight n maxDedupDepth tokens row
        (dedupTreeRowsByDepthKernel tokens n N compactN maxDedupDepth maxWalkDepth scratch row) ↔
      ZerosShadowed n maxDedupDepth tokens row :=
  ⟨shadowed_of_mergedRight rawRow scratch, mergedRight_of_shadowed rawRow scratch⟩

end kernel

/-- The cousins as a row of a batch. -/
def cousinRow : RowTensors := ⟨cousins.parents, cousins.lps⟩

theorem cousinRow_raw : RawRow 7 8 7 4 20 cousinTokens cousinRow where
  packable := ⟨by decide, by decide, by decide, by decide⟩
  finite := by decide
  nonpositive := by decide
  some_pass := by decide
  shallow := by unfold DeeperThan; decide
  reached := by unfold DeeperThan; decide
  narrow := fun _ => Nat.count_le _

/-- The kernel merges the cousins' row as it should: it strikes out the lower of two siblings with
one token, and one depth below it the child that has become a duplicate by that. -/
theorem dedup_tree_row_iff_cousins :
    MergedRight 7 4 cousinTokens cousinRow
        (dedupTreeRowsByDepthKernel cousinTokens 7 8 7 4 20 (fun _ => 0) cousinRow) ∧
      (dedupTreeRowsByDepthKernel cousinTokens 7 8 7 4 20 (fun _ => 0) cousinRow).lps 4 = .negInfinity ∧
      (dedupTreeRowsByDepthKernel cousinTokens 7 8 7 4 20 (fun _ => 0) cousinRow).lps 6 = .negInfinity := by
  have zeroless : ∀ pid < 7, (cousinRow.lps pid).bits ≠ 0 := by decide
  exact ⟨(dedup_tree_row_iff cousinRow_raw (fun _ => 0)).mpr fun pid within _ zero =>
    absurd zero (zeroless pid within), by decide +kernel, by decide +kernel⟩

/-- A root with one child; both are certain, with positive zeros for log-probabilities. -/
def certainRow : RowTensors where
  parents := fun pid => if pid = 1 then 0 else -1
  lps := fun _ => .plusZero

/-- The row is one the kernel is launched on, with four passes and the walk of twenty. -/
theorem certainRow_raw : RawRow 2 2 2 4 20 (fun pid => pid) certainRow where
  packable := ⟨by decide, by decide, by decide, by decide⟩
  finite := by decide
  nonpositive := by decide
  some_pass := by decide
  shallow := by unfold DeeperThan; decide
  reached := by unfold DeeperThan; decide
  narrow := fun _ => Nat.count_le _

/-- The only child of the certain row is struck out. -/
theorem certain_child_lost :
    RawRow 2 2 2 4 20 (fun pid => pid) certainRow ∧
      certainRow.parents 1 = 0 ∧ certainRow.lps 1 ≤ certainRow.lps 0 ∧
      (dedupTreeRowsByDepthKernel (fun pid => pid) 2 2 2 4 20 (fun _ => 0) certainRow).lps 1 =
        .negInfinity ∧
      ¬ MergedRight 2 4 (fun pid => pid) certainRow
        (dedupTreeRowsByDepthKernel (fun pid => pid) 2 2 2 4 20 (fun _ => 0) certainRow) := by
  refine ⟨certainRow_raw, rfl, le_refl _, by decide +kernel, fun right => ?_⟩
  obtain ⟨other, before, _, bits⟩ :=
    shadowed_of_mergedRight certainRow_raw (fun _ => 0) right 1 (by decide) (by decide) rfl
  exact absurd (show (0 : Nat) = 2147483648 from bits) (by decide)

end SpecBlock.Building
