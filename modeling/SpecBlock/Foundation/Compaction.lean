import Mathlib.Data.List.GetD
import Mathlib.Data.List.Sort
import Mathlib.Data.Nat.Count
import SpecBlock.Foundation.Stores

/-!
# Compacting the chosen lanes of a tile

Chosen lanes are moved to the front of a tile: every one of them stores its value at its rank, the
number of chosen lanes before it, and the rest of the tile holds a filler. The front then lists the
values of the chosen lanes in order. When the filler is above all values, sorting the tile sorts its
front and leaves the fillers behind.
-/

namespace SpecBlock.Compaction

open Stores

variable {P : Nat → Prop} [DecidablePred P] {width lane : Nat}

theorem length_chosen (width : Nat) : ((List.range width).filter P).length = Nat.count P width := by
  rw [Nat.count, List.countP_eq_length_filter]

theorem chosen_at_rank (inside : lane < width) (chosen : P lane) :
    ((List.range width).filter P)[Nat.count P lane]? = some lane := by
  induction width with
  | zero => exact absurd inside (Nat.not_lt_zero lane)
  | succ width ih =>
    rw [List.range_succ, List.filter_append]
    rcases Nat.lt_succ_iff_lt_or_eq.mp inside with earlier | last
    · have found := ih earlier
      rw [List.getElem?_append_left, found]
      exact (List.getElem?_eq_some_iff.mp found).1
    · subst last
      rw [List.getElem?_append_right (by rw [length_chosen]), length_chosen, Nat.sub_self,
        List.filter_cons_of_pos (by simpa using chosen)]
      rfl

/-- Every place before the number of chosen lanes is the rank of one. -/
theorem exists_rank {place : Nat} (inside : place < Nat.count P width) :
    ∃ lane < width, P lane ∧ Nat.count P lane = place := by
  have within : place < ((List.range width).filter P).length := by rwa [length_chosen]
  have member := List.mem_filter.mp (List.getElem_mem within)
  have laneInside := List.mem_range.mp member.1
  have chosen : P ((List.range width).filter P)[place] := of_decide_eq_true member.2
  refine ⟨_, laneInside, chosen, ?_⟩
  have found := chosen_at_rank laneInside chosen
  have distinct : ((List.range width).filter P).Nodup := List.nodup_range.filter _
  obtain ⟨bound, same⟩ := List.getElem?_eq_some_iff.mp found
  exact (distinct.getElem_inj_iff).mp same

variable {V : Type} (value : Nat → V) (filler : V)

/-- The tile once the chosen lanes have stored their values at their ranks. -/
def compacted (P : Nat → Prop) [DecidablePred P] (width : Nat) (value : Nat → V) (filler : V) :
    Nat → V :=
  store (fun _ => filler) (((List.range width).filter P).map (fun lane =>
    (Nat.count P (lane + 1) - 1, value lane)))

/-- Counting up to a chosen lane, itself included, gives one more than its rank. -/
theorem rank_of_chosen (chosen : P lane) : Nat.count P (lane + 1) - 1 = Nat.count P lane := by
  rw [Nat.count_succ, if_pos chosen, Nat.add_sub_cancel]

theorem compacted_rank (inside : lane < width) (chosen : P lane) :
    compacted P width value filler (Nat.count P lane) = value lane := by
  apply store_value
  · exact List.mem_map.mpr ⟨lane, List.mem_filter.mpr
      ⟨List.mem_range.mpr inside, decide_eq_true chosen⟩, by rw [rank_of_chosen chosen]⟩
  · intro entry member same
    obtain ⟨other, listed, rfl⟩ := List.mem_map.mp member
    obtain ⟨ranged, flagged⟩ := List.mem_filter.mp listed
    have otherChosen : P other := of_decide_eq_true flagged
    have rank : Nat.count P other = Nat.count P lane := (rank_of_chosen otherChosen).symm.trans same
    have found := chosen_at_rank (List.mem_range.mp ranged) otherChosen
    rw [rank, chosen_at_rank inside chosen] at found
    rw [Option.some.inj found]

theorem compacted_behind {place : Nat} (behind : Nat.count P width ≤ place) :
    compacted P width value filler place = filler := by
  apply store_frame
  intro entry member same
  obtain ⟨lane, listed, rfl⟩ := List.mem_map.mp member
  obtain ⟨ranged, flagged⟩ := List.mem_filter.mp listed
  have chosen : P lane := of_decide_eq_true flagged
  have rank : Nat.count P lane = place := (rank_of_chosen chosen).symm.trans same
  have below : Nat.count P (lane + 1) ≤ Nat.count P width :=
    Nat.count_monotone P (List.mem_range.mp ranged)
  rw [Nat.count_succ, if_pos chosen] at below
  omega

/-- The lanes of a tile that is wide enough: the chosen values in order, then fillers. -/
theorem compacted_lanes {lanes : Nat} (enough : Nat.count P width ≤ lanes) :
    (List.range lanes).map (compacted P width value filler) =
      ((List.range width).filter P).map value ++
        List.replicate (lanes - Nat.count P width) filler := by
  apply List.ext_getElem?
  intro place
  rcases Nat.lt_or_ge place (Nat.count P width) with front | behind
  · obtain ⟨lane, inside, chosen, rank⟩ := exists_rank front
    subst rank
    rw [List.getElem?_append_left (by simpa [length_chosen] using front), List.getElem?_map,
      List.getElem?_map, chosen_at_rank inside chosen,
      List.getElem?_range (Nat.lt_of_lt_of_le front enough), Option.map_some, Option.map_some,
      compacted_rank value filler inside chosen]
  · rw [List.getElem?_append_right (by simpa [length_chosen] using behind), List.length_map,
      length_chosen, List.getElem?_replicate, List.getElem?_map]
    split
    · rw [List.getElem?_range (by omega), Option.map_some, compacted_behind value filler behind]
    · rw [List.getElem?_eq_none (by rw [List.length_range]; omega), Option.map_none]

/-- Fillers above all values stay behind them when a tile is sorted. -/
theorem sort_padded {K : Type} [LinearOrder K] {values : List K} {filler : K}
    (above : ∀ value ∈ values, value ≤ filler) (count : Nat) :
    (values ++ List.replicate count filler).insertionSort (· ≤ ·) =
      values.insertionSort (· ≤ ·) ++ List.replicate count filler := by
  have sorted : (values.insertionSort (· ≤ ·) ++ List.replicate count filler).Pairwise (· ≤ ·) := by
    refine List.pairwise_append.mpr ⟨List.pairwise_insertionSort _ _, ?_, ?_⟩
    · exact List.pairwise_replicate.mpr (.inr (le_refl filler))
    · intro value member other listed
      rw [List.eq_of_mem_replicate listed]
      exact above value ((List.mem_insertionSort _).mp member)
  have order : (values ++ List.replicate count filler).insertionSort (· ≤ ·) |>.Perm
      (values.insertionSort (· ≤ ·) ++ List.replicate count filler) :=
    (List.perm_insertionSort _ _).trans ((List.perm_insertionSort _ _).symm.append_right _)
  exact order.eq_of_pairwise (fun _ _ _ _ low high => le_antisymm low high)
    (List.pairwise_insertionSort _ _) sorted

end SpecBlock.Compaction
