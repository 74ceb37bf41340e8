import Mathlib.Algebra.Field.Basic
import Mathlib.Algebra.Order.BigOperators.Group.List
import Mathlib.Algebra.Order.Field.Basic
import Mathlib.Algebra.Order.Field.Rat
import Mathlib.Algebra.Order.Ring.Defs
import SpecBlock.Building.GpuPrune
import SpecBlock.Draft.StreamWindow

/-!
# Compaction of a prompt by attention scores

The last positions of a prompt observe all its rows. What they attend to is summed up for each
position and smoothed by an average over its neighbours; the first positions and the observers are
kept in any case, and of the positions between them those with the greatest scores, as many as the
budget leaves room for. Kept positions keep all their rows.

The selection asks for the top scores only when the budget leaves room for some. Otherwise it falls
back on all positions between, which is right when they fit and wrong when there is no room: then
nothing is dropped at all.
-/

namespace SpecBlock.Draft
open Rows Building

variable {S : Type} [Field S] [LinearOrder S]

/-- `F.softmax` of a row of scores. -/
def softmax (exp : S → S) (columns : Nat) (scores : Nat → S) (column : Nat) : S :=
  exp (scores column) / ((List.range columns).map (fun column => exp (scores column))).sum

/-- `importance`: the mean of what the observers of all heads pay attention to a row. -/
def importance (exp : S → S) (heads observers promptRows : Nat) (scores : Nat → Nat → Nat → S)
    (row : Nat) : S :=
  ((List.range heads).map (fun head => ((List.range observers).map (fun observer =>
    softmax exp promptRows (scores head observer) row)).sum)).sum / ((heads * observers : Nat) : S)

/-- `imp_pos`: the rows of a position together. -/
def impPos (K : Nat) (importance : Nat → S) (position : Nat) : S :=
  ((List.range K).map (fun slot => importance (position * K + slot))).sum

/-- `paddedScores`: the scores with the first and the last one repeated. -/
def paddedScores (promptLen pad : Nat) (scores : Nat → S) (place : Nat) : S :=
  scores (min (place - pad) (promptLen - 1))

/-- `smoothed`. -/
def smoothed (promptLen poolKernel : Nat) (scores : Nat → S) : List S :=
  let pad := poolKernel / 2
  (List.range (promptLen + 2 * pad + 1 - poolKernel)).map (fun place =>
    ((List.range poolKernel).map (fun offset => paddedScores promptLen pad scores (place + offset))).sum /
      (poolKernel : S))

/-- `middle_mask`. -/
def middleMask (promptLen sinkPos obsWin position : Nat) : Bool :=
  decide (sinkPos ≤ position ∧ position < promptLen - obsWin)

/-- `middle_scores`. -/
def middleScores (promptLen sinkPos obsWin : Nat) (smoothed : List S) : List S :=
  (List.range promptLen).map (fun position =>
    if middleMask promptLen sinkPos obsWin position then smoothed.getD position 0 else -1000000000)

/-- `top_idx`. A budget without room for a position in the middle takes the other branch, and so
keeps all of them. -/
def topIdx (topk : List S → Nat → List Nat) (promptLen sinkPos obsWin topB : Nat) (smoothed : List S) :
    List Nat :=
  let middle := (List.range promptLen).filter (middleMask promptLen sinkPos obsWin)
  if 0 < topB ∧ topB < middle.length then
    topk (middleScores promptLen sinkPos obsWin smoothed) topB
  else middle

/-- `keep_pos`. -/
def keepPos (topk : List S → Nat → List Nat) (promptLen sinkPos obsWin topB : Nat) (smoothed : List S) :
    List Nat :=
  (arange 0 sinkPos ++ topIdx topk promptLen sinkPos obsWin topB smoothed ++
    arange (promptLen - obsWin) promptLen).mergeSort

/-- `keep_rows`, with the rows behind the prompt. -/
def keepRowIdx (K promptLen count : Nat) (keepPos : List Nat) : List Nat :=
  (keepPos.flatMap (fun position => (List.range K).map (position * K + ·))).mergeSort ++
    arange (promptLen * K) count

/-- `snapkv_compact_prompt_cache` on a layer. `scores` gives the importance of the positions by the
live rows, and `topk` is the library's. A window that does not give every position a score is an
error. -/
def StreamLayer.snapkvCompactPromptCache {α : Type} (topk : List S → Nat → List Nat)
    (scores : List (Option α) → Nat → S) (K promptLen obsWin budget sinkPos poolKernel : Nat)
    (layer : StreamLayer α) : Option (StreamLayer α) :=
  if promptLen ≤ sinkPos + obsWin then some layer
  else if promptLen ≤ min budget promptLen then some layer
  else if layer.count < promptLen * K then some layer
  else
    let topB := min budget promptLen - sinkPos - obsWin
    let smoothed := smoothed promptLen poolKernel (scores (layer.cells.take (promptLen * K)))
    if smoothed.length = promptLen then
      let keepPos := keepPos topk promptLen sinkPos obsWin topB smoothed
      (layer.keepRows (keepRowIdx K promptLen layer.count keepPos)).map
        (fun kept => { kept with farEndRow := none })
    else none

/-- `snapkv_compact_prompt_cache`. -/
def snapkvCompactPromptCache {α : Type} (topk : List S → Nat → List Nat)
    (scores : List (Option α) → Nat → S) (K promptLen obsWin budget sinkPos poolKernel : Nat)
    (cache : List (StreamLayer α)) : Option (List (StreamLayer α)) :=
  cache.mapM (StreamLayer.snapkvCompactPromptCache topk scores K promptLen obsWin budget sinkPos poolKernel)

/-! ## Scores -/

section scores

variable [IsStrictOrderedRing S]

theorem importance_nonneg (exp : S → S) (positive : ∀ score, 0 < exp score)
    (heads observers promptRows : Nat) (scores : Nat → Nat → Nat → S) (row : Nat) :
    0 ≤ importance exp heads observers promptRows scores row := by
  have weight : ∀ head observer, 0 ≤ softmax exp promptRows (scores head observer) row := by
    intro head observer
    apply div_nonneg (positive _).le
    apply List.sum_nonneg
    intro term member
    obtain ⟨column, -, rfl⟩ := List.mem_map.mp member
    exact (positive _).le
  apply div_nonneg _ (Nat.cast_nonneg _)
  apply List.sum_nonneg
  intro term member
  obtain ⟨head, -, rfl⟩ := List.mem_map.mp member
  apply List.sum_nonneg
  intro term member
  obtain ⟨observer, -, rfl⟩ := List.mem_map.mp member
  exact weight head observer

theorem impPos_nonneg (K : Nat) (importance : Nat → S) (nonneg : ∀ row, 0 ≤ importance row)
    (position : Nat) : 0 ≤ impPos K importance position := by
  apply List.sum_nonneg
  intro term member
  obtain ⟨slot, -, rfl⟩ := List.mem_map.mp member
  exact nonneg _

omit [LinearOrder S] [IsStrictOrderedRing S] in
theorem smoothed_length {promptLen poolKernel : Nat} (odd : poolKernel % 2 = 1) (scores : Nat → S) :
    (smoothed promptLen poolKernel scores).length = promptLen := by
  rw [smoothed, List.length_map, List.length_range]
  omega

theorem smoothed_nonneg (promptLen poolKernel : Nat) (scores : Nat → S)
    (nonneg : ∀ position, 0 ≤ scores position) (position : Nat) :
    0 ≤ (smoothed promptLen poolKernel scores).getD position 0 := by
  rw [List.getD_eq_getElem?_getD]
  cases read : (smoothed promptLen poolKernel scores)[position]? with
  | none => exact le_refl _
  | some score =>
    obtain ⟨place, -, rfl⟩ := List.mem_map.mp (List.mem_of_getElem? read)
    apply div_nonneg _ (Nat.cast_nonneg _)
    apply List.sum_nonneg
    intro term member
    obtain ⟨offset, -, rfl⟩ := List.mem_map.mp member
    exact nonneg _

end scores

/-! ## Selected positions -/

section selection

variable {promptLen sinkPos obsWin topB : Nat} {topk : List S → Nat → List Nat} {scores : List S}

theorem middleMask_iff {position : Nat} : middleMask promptLen sinkPos obsWin position = true ↔
    sinkPos ≤ position ∧ position < promptLen - obsWin := decide_eq_true_iff

theorem middle_eq (short : sinkPos + obsWin ≤ promptLen) :
    (List.range promptLen).filter (middleMask promptLen sinkPos obsWin) =
      arange sinkPos (promptLen - obsWin) := by
  have whole : List.range promptLen =
      arange 0 sinkPos ++ arange sinkPos (promptLen - obsWin) ++ arange (promptLen - obsWin) promptLen := by
    rw [arange_append (Nat.zero_le _) (by omega), arange_append (Nat.zero_le _) (Nat.sub_le _ _), arange,
      Nat.sub_zero, List.range_eq_range']
  rw [whole, List.filter_append, List.filter_append, List.filter_eq_nil_iff.mpr,
    List.filter_eq_self.mpr, List.filter_eq_nil_iff.mpr, List.nil_append, List.append_nil]
  · intro position listed
    have bound := mem_arange.mp listed
    rw [middleMask_iff]
    omega
  · intro position listed
    exact middleMask_iff.mpr (mem_arange.mp listed)
  · intro position listed
    have bound := mem_arange.mp listed
    rw [middleMask_iff]
    omega

/-- What the selection chooses when there is room: as many positions between as there is room for,
and those with the greatest scores. -/
structure TopMiddle (promptLen sinkPos obsWin topB : Nat) (scores : List S) (chosen : List Nat) : Prop where
  distinct : chosen.Nodup
  count : chosen.length = topB
  middle : ∀ position ∈ chosen, sinkPos ≤ position ∧ position < promptLen - obsWin
  greatest : ∀ position ∈ chosen, ∀ other, sinkPos ≤ other → other < promptLen - obsWin →
    other ∉ chosen → scores.getD other 0 ≤ scores.getD position 0

/-- With room for some positions but not for all the library's choice is of positions between: each
of the others is masked below every score. -/
theorem topIdx_top [IsStrictOrderedRing S]
    (selects : ∀ keys count, count ≤ keys.length → TopK keys count (topk keys count))
    (nonneg : ∀ position, 0 ≤ scores.getD position 0) (room : 0 < topB)
    (tight : sinkPos + topB + obsWin < promptLen) :
    TopMiddle promptLen sinkPos obsWin topB scores (topIdx topk promptLen sinkPos obsWin topB scores) := by
  have middle := middle_eq (show sinkPos + obsWin ≤ promptLen by omega)
  have size : (arange sinkPos (promptLen - obsWin)).length = promptLen - obsWin - sinkPos :=
    arange_length _ _
  rw [topIdx, middle, if_pos ⟨room, by omega⟩]
  have keysLength : (middleScores promptLen sinkPos obsWin scores).length = promptLen := by
    rw [middleScores, List.length_map, List.length_range]
  have chosen := selects (middleScores promptLen sinkPos obsWin scores) topB (by omega)
  generalize topk (middleScores promptLen sinkPos obsWin scores) topB = positions at chosen
  have key : ∀ position < promptLen, (middleScores promptLen sinkPos obsWin scores)[position]? =
      some (if middleMask promptLen sinkPos obsWin position then scores.getD position 0
        else -1000000000) := by
    intro position inside
    rw [middleScores, List.getElem?_map, List.getElem?_range inside]
    rfl
  -- some position between is left out, and it scores above the mask
  obtain ⟨left, leftListed, leftOut⟩ : ∃ left ∈ arange sinkPos (promptLen - obsWin), left ∉ positions := by
    by_contra all
    push Not at all
    have distinct : (arange sinkPos (promptLen - obsWin)).Nodup := by
      rw [arange]
      exact List.nodup_range'
    have bound := (distinct.subperm (fun position listed => all position listed)).length_le
    rw [chosen.exactly] at bound
    omega
  have leftMiddle := mem_arange.mp leftListed
  have middleOnly : ∀ position ∈ positions, sinkPos ≤ position ∧ position < promptLen - obsWin := by
    intro position member
    have inside := chosen.inside position member
    rw [keysLength] at inside
    by_contra outside
    have higher := chosen.greatest position member left (by omega) leftOut _ (key position inside) _
      (key left (by omega))
    rw [if_pos (middleMask_iff.mpr leftMiddle), if_neg (mt middleMask_iff.mp outside)] at higher
    have negative : (-1000000000 : S) < 0 := by norm_num
    exact absurd (lt_of_lt_of_le negative (nonneg left)) (not_lt.mpr higher)
  refine ⟨chosen.distinct, chosen.exactly, middleOnly, ?_⟩
  intro position member other low high otherOut
  have isMiddle := middleOnly position member
  have higher := chosen.greatest position member other (by omega) otherOut _ (key position (by omega)) _
    (key other (by omega))
  rwa [if_pos (middleMask_iff.mpr isMiddle), if_pos (middleMask_iff.mpr ⟨low, high⟩)] at higher

/-- The law of the budget: so many distinct positions in ascending order, all first ones and all
observers among them, and of those between none that scores less than one left out. -/
structure KeptPositions (promptLen sinkPos obsWin budget : Nat) (scores : List S) (kept : List Nat) :
    Prop where
  ascending : kept.Pairwise (· < ·)
  count : kept.length = max budget (sinkPos + obsWin)
  inside : ∀ position ∈ kept, position < promptLen
  sinks : ∀ position < sinkPos, position ∈ kept
  observers : ∀ position, promptLen - obsWin ≤ position → position < promptLen → position ∈ kept
  greatest : ∀ position ∈ kept, sinkPos ≤ position → position < promptLen - obsWin →
    ∀ other, sinkPos ≤ other → other < promptLen - obsWin → other ∉ kept →
      scores.getD other 0 ≤ scores.getD position 0

theorem sorted_perm (positions : List Nat) :
    positions.mergeSort.Perm positions ∧ positions.mergeSort.Pairwise (· ≤ ·) := by
  refine ⟨List.mergeSort_perm _ _, ?_⟩
  have ordered : (positions.mergeSort (fun first second => decide (first ≤ second))).Pairwise
      (fun first second => decide (first ≤ second) = true) := by
    apply List.pairwise_mergeSort
    · intro first second third
      simp only [decide_eq_true_eq]
      omega
    · intro first second
      simp only [Bool.or_eq_true, decide_eq_true_eq]
      omega
  exact ordered.imp (fun le => of_decide_eq_true le)

/-- With room for some positions but not for all the kept ones meet the law. -/
theorem keepPos_kept [IsStrictOrderedRing S] {budget : Nat}
    (selects : ∀ keys count, count ≤ keys.length → TopK keys count (topk keys count))
    (nonneg : ∀ position, 0 ≤ scores.getD position 0) (room : sinkPos + obsWin < budget)
    (tight : budget < promptLen) :
    KeptPositions promptLen sinkPos obsWin budget scores
      (keepPos topk promptLen sinkPos obsWin (min budget promptLen - sinkPos - obsWin) scores) := by
  have top : TopMiddle promptLen sinkPos obsWin (min budget promptLen - sinkPos - obsWin) scores
      (topIdx topk promptLen sinkPos obsWin (min budget promptLen - sinkPos - obsWin) scores) :=
    topIdx_top selects nonneg (by omega) (by omega)
  rw [keepPos]
  generalize topIdx topk promptLen sinkPos obsWin (min budget promptLen - sinkPos - obsWin) scores =
    chosen at top
  obtain ⟨same, ordered⟩ := sorted_perm
    (arange 0 sinkPos ++ chosen ++ arange (promptLen - obsWin) promptLen)
  have listed : ∀ position, position ∈
      (arange 0 sinkPos ++ chosen ++ arange (promptLen - obsWin) promptLen).mergeSort ↔
        position < sinkPos ∨ position ∈ chosen ∨
          (promptLen - obsWin ≤ position ∧ position < promptLen) := by
    intro position
    rw [same.mem_iff, List.mem_append, List.mem_append, mem_arange, mem_arange, or_assoc]
    simp
  have distinct : (arange 0 sinkPos ++ chosen ++ arange (promptLen - obsWin) promptLen).Nodup := by
    rw [List.nodup_append, List.nodup_append]
    refine ⟨⟨List.nodup_range', top.distinct, ?_⟩, List.nodup_range', ?_⟩
    · rintro position first other member rfl
      have bound := (mem_arange.mp first).2
      have low := (top.middle position member).1
      omega
    · rintro position earlier other last rfl
      have bound := (mem_arange.mp last).1
      rcases List.mem_append.mp earlier with first | member
      · have low := (mem_arange.mp first).2
        omega
      · have high := (top.middle position member).2
        omega
  refine ⟨?_, ?_, ?_, ?_, ?_, ?_⟩
  · exact ordered.imp₂ (fun first second le apart => Nat.lt_of_le_of_ne le apart)
      (same.nodup_iff.mpr distinct)
  · rw [same.length_eq, List.length_append, List.length_append, arange_length, arange_length, top.count]
    omega
  · intro position member
    rcases (listed position).mp member with first | member | last
    · omega
    · have high := (top.middle position member).2
      omega
    · exact last.2
  · intro position first
    exact (listed position).mpr (.inl first)
  · intro position low high
    exact (listed position).mpr (.inr (.inr ⟨low, high⟩))
  · intro position member low high other otherLow otherHigh left
    have positionChosen : position ∈ chosen := by
      rcases (listed position).mp member with first | member | last
      · omega
      · exact member
      · omega
    have otherLeft : other ∉ chosen := fun chosen => left ((listed other).mpr (.inr (.inl chosen)))
    exact top.greatest position positionChosen other otherLow otherHigh otherLeft

end selection

/-! ## Kept rows -/

section rows

variable {α : Type} {K promptLen : Nat} {rows : List α} {kept : List Nat}

/-- The rows of some positions. -/
def positionRows (K : Nat) (rows : List α) (kept : List Nat) : List α :=
  kept.flatMap (fun position => (rows.drop (position * K)).take K)

theorem slots_arange (position : Nat) :
    (List.range K).map (position * K + ·) = arange (position * K) (position * K + K) := by
  rw [arange, Nat.add_sub_cancel_left, List.range'_eq_map_range]

theorem slots_sorted (ascending : kept.Pairwise (· < ·)) :
    (kept.flatMap (fun position => (List.range K).map (position * K + ·))).Pairwise (· ≤ ·) := by
  rw [List.pairwise_flatMap]
  refine ⟨?_, ?_⟩
  · intro position _
    rw [slots_arange, arange]
    exact List.pairwise_le_range'
  · refine ascending.imp ?_
    intro first second before row low other high
    rw [slots_arange, mem_arange] at low high
    have bound : (first + 1) * K ≤ second * K := Nat.mul_le_mul_right K before
    rw [Nat.succ_mul] at bound
    omega

theorem slots_inside (inside : ∀ position ∈ kept, position < promptLen) (row : Nat)
    (listed : row ∈ kept.flatMap (fun position => (List.range K).map (position * K + ·))) :
    row < promptLen * K := by
  obtain ⟨position, member, slots⟩ := List.mem_flatMap.mp listed
  rw [slots_arange, mem_arange] at slots
  have bound : (position + 1) * K ≤ promptLen * K := Nat.mul_le_mul_right K (inside position member)
  rw [Nat.succ_mul] at bound
  omega

/-- Gathering the row indices of some positions gives their rows. -/
theorem gather_positions (enough : promptLen * K ≤ rows.length)
    (inside : ∀ position ∈ kept, position < promptLen) :
    gather (kept.flatMap (fun position => (List.range K).map (position * K + ·))) rows =
      positionRows K rows kept := by
  induction kept with
  | nil => rfl
  | cons position kept ih =>
    have bound : (position + 1) * K ≤ promptLen * K :=
      Nat.mul_le_mul_right K (inside position List.mem_cons_self)
    rw [Nat.succ_mul] at bound
    rw [List.flatMap_cons, gather_append, slots_arange, gather_arange _ _ _ (by omega),
      Nat.add_sub_cancel_left, ih (fun other member =>
        inside other (List.mem_cons_of_mem _ member)), positionRows, positionRows, List.flatMap_cons]

theorem positionRows_length (enough : promptLen * K ≤ rows.length)
    (inside : ∀ position ∈ kept, position < promptLen) :
    (positionRows K rows kept).length = kept.length * K := by
  induction kept with
  | nil => simp [positionRows]
  | cons position kept ih =>
    have bound : (position + 1) * K ≤ promptLen * K :=
      Nat.mul_le_mul_right K (inside position List.mem_cons_self)
    rw [Nat.succ_mul] at bound
    have rest := ih (fun other member => inside other (List.mem_cons_of_mem _ member))
    rw [positionRows] at rest
    rw [positionRows, List.flatMap_cons, List.length_append, rest, List.length_take, List.length_drop,
      List.length_cons, Nat.succ_mul]
    omega

/-- Kept row indices gather the rows of the kept positions and those behind the prompt. -/
theorem gather_keepRowIdx (enough : promptLen * K ≤ rows.length) (ascending : kept.Pairwise (· < ·))
    (inside : ∀ position ∈ kept, position < promptLen) :
    gather (keepRowIdx K promptLen rows.length kept) rows =
      positionRows K rows kept ++ rows.drop (promptLen * K) := by
  have sorted := (slots_sorted (K := K) ascending).imp (fun {first second} (le : first ≤ second) =>
    decide_eq_true le)
  rw [keepRowIdx, List.mergeSort_of_pairwise sorted, gather_append, gather_rest,
    gather_positions enough inside]

theorem keepRowIdx_inside (enough : promptLen * K ≤ rows.length)
    (inside : ∀ position ∈ kept, position < promptLen) (row : Nat)
    (listed : row ∈ keepRowIdx K promptLen rows.length kept) : row < rows.length := by
  rcases List.mem_append.mp listed with slot | tail
  · have bound := slots_inside inside row ((sorted_perm _).1.mem_iff.mp slot)
    omega
  · exact (mem_arange.mp tail).2

theorem keepRowIdx_length (count : Nat) (kept : List Nat) :
    (keepRowIdx K promptLen count kept).length = kept.length * K + (count - promptLen * K) := by
  rw [keepRowIdx, List.length_append, arange_length, List.length_mergeSort]
  congr 1
  induction kept with
  | nil => simp
  | cons position kept ih =>
    rw [List.flatMap_cons, List.length_append, ih, List.length_map, List.length_range,
      List.length_cons, Nat.succ_mul, Nat.add_comm]

end rows

/-! ## The budget -/

section budget

variable [IsStrictOrderedRing S] {α : Type}
  {topk : List S → Nat → List Nat} {scores : List (Option α) → Nat → S}
  {K promptLen obsWin budget sinkPos poolKernel : Nat}

/-- What the compaction should leave of a layer: all rows of the kept positions in ascending order, and
then the rows behind the prompt as they are. -/
def RespectsBudget (scores : List (Option α) → Nat → S)
    (K promptLen obsWin budget sinkPos poolKernel : Nat) (rows : List α) (after : StreamLayer α) : Prop :=
  ∃ kept, KeptPositions promptLen sinkPos obsWin budget
      (smoothed promptLen poolKernel (scores ((rows.take (promptLen * K)).map some))) kept ∧
    after.Holds (positionRows K rows kept ++ rows.drop (promptLen * K))

/-- With room for some positions between the compaction of a layer respects the budget. -/
theorem snapkv_layer (selects : ∀ keys count, count ≤ keys.length → TopK keys count (topk keys count))
    (odd : poolKernel % 2 = 1) (nonneg : ∀ live position, 0 ≤ scores live position) (tight : budget < promptLen)
    (room : sinkPos + obsWin < budget) {layer : StreamLayer α} {rows : List α}
    (holds : layer.Holds rows) (enough : promptLen * K ≤ rows.length) :
    ∃ after, layer.snapkvCompactPromptCache topk scores K promptLen obsWin budget sinkPos poolKernel =
        some after ∧
      RespectsBudget scores K promptLen obsWin budget sinkPos poolKernel rows after := by
  have live : layer.cells.take (promptLen * K) = (rows.take (promptLen * K)).map some := by
    rw [List.map_take, ← holds.live, List.take_take, holds.counted, Nat.min_eq_left enough]
  have kept := keepPos_kept selects (smoothed_nonneg promptLen poolKernel _
    (nonneg ((rows.take (promptLen * K)).map some))) room tight
  have counted := holds.counted
  rw [StreamLayer.snapkvCompactPromptCache, if_neg (by omega), if_neg (by omega), if_neg (by omega), live,
    counted]
  simp only [smoothed_length odd, if_true]
  obtain ⟨after, gathered, keeps⟩ := holds.keepRows _ (keepRowIdx_inside enough kept.inside)
  rw [gather_keepRowIdx enough kept.ascending kept.inside] at keeps
  simp only [gathered]
  exact ⟨_, rfl, _, kept, ⟨keeps.counted, keeps.live⟩⟩

omit [IsStrictOrderedRing S] in
theorem snapkv_layer_full (slot : 0 < K) (odd : poolKernel % 2 = 1)
    (long : sinkPos + obsWin < promptLen) (tight : budget < promptLen)
    (full : budget ≤ sinkPos + obsWin) {layer after : StreamLayer α} {rows : List α}
    (holds : layer.Holds rows) (enough : promptLen * K ≤ rows.length)
    (compacted : layer.snapkvCompactPromptCache topk scores K promptLen obsWin budget sinkPos poolKernel =
      some after) :
    ¬ RespectsBudget scores K promptLen obsWin budget sinkPos poolKernel rows after := by
  rintro ⟨kept, lawful, keeps⟩
  have counted := holds.counted
  rw [StreamLayer.snapkvCompactPromptCache, if_neg (by omega), if_neg (by omega), if_neg (by omega)]
    at compacted
  simp only [smoothed_length odd, if_true] at compacted
  obtain ⟨gathered, selected, rfl⟩ := Option.map_eq_some_iff.mp compacted
  obtain ⟨selectedRows, -, written⟩ := Option.bind_eq_some_iff.mp selected
  obtain rfl := Option.some.inj written
  have noRoom : min budget promptLen - sinkPos - obsWin = 0 := by omega
  have middle := middle_eq (show sinkPos + obsWin ≤ promptLen by omega)
  have size := keeps.counted
  rw [List.length_append, positionRows_length enough lawful.inside, lawful.count, List.length_drop] at size
  simp only [keepRowIdx_length, noRoom, keepPos, topIdx, Nat.lt_irrefl, false_and, if_false, middle,
    List.length_mergeSort, List.length_append, arange_length, counted] at size
  have positions : sinkPos - 0 + (promptLen - obsWin - sinkPos) + (promptLen - (promptLen - obsWin)) =
      promptLen := by omega
  rw [positions, Nat.max_eq_right full] at size
  have fewer : (sinkPos + obsWin + 1) * K ≤ promptLen * K := Nat.mul_le_mul_right K long
  rw [Nat.succ_mul] at fewer
  omega

/-- A cache that holds a prompt, with whatever rows behind it, in every layer. -/
structure HoldsPrompt (K promptLen : Nat) (cache : List (StreamLayer α)) (rows : Nat → List α) : Prop where
  layered : cache ≠ []
  holds : ∀ (layer : Nat) (stored : StreamLayer α), cache[layer]? = some stored → stored.Holds (rows layer)
  enough : ∀ layer < cache.length, promptLen * K ≤ (rows layer).length

/-- The compaction respects the budget in every layer of a cache. -/
def CompactionRespects (topk : List S → Nat → List Nat) (scores : List (Option α) → Nat → S)
    (K promptLen obsWin budget sinkPos poolKernel : Nat) (cache : List (StreamLayer α))
    (rows : Nat → List α) : Prop :=
  ∃ after, snapkvCompactPromptCache topk scores K promptLen obsWin budget sinkPos poolKernel cache =
      some after ∧ after.length = cache.length ∧
    ∀ layer stored, after[layer]? = some stored →
      RespectsBudget scores K promptLen obsWin budget sinkPos poolKernel (rows layer) stored

/-- The budget is respected when it leaves room for a position between. -/
theorem compactionRespects_of_room
    (selects : ∀ keys count, count ≤ keys.length → TopK keys count (topk keys count))
    (odd : poolKernel % 2 = 1) (nonneg : ∀ live position, 0 ≤ scores live position)
    (tight : budget < promptLen) {cache : List (StreamLayer α)} {rows : Nat → List α}
    (prompt : HoldsPrompt K promptLen cache rows) (room : sinkPos + obsWin < budget) :
    CompactionRespects topk scores K promptLen obsWin budget sinkPos poolKernel cache rows :=
  mapM_layers (StreamLayer.snapkvCompactPromptCache topk scores K promptLen obsWin budget sinkPos poolKernel)
    (fun layer after => RespectsBudget scores K promptLen obsWin budget sinkPos poolKernel (rows layer) after)
    cache (fun layer stored read => snapkv_layer selects odd nonneg tight room
      (prompt.holds layer stored read) (prompt.enough layer (List.getElem?_eq_some_iff.mp read).1))

omit [IsStrictOrderedRing S] in
/-- A budget that the first positions and the observers use up is not. -/
theorem not_compactionRespects_of_full (slot : 0 < K) (odd : poolKernel % 2 = 1)
    (long : sinkPos + obsWin < promptLen) (tight : budget < promptLen) {cache : List (StreamLayer α)}
    {rows : Nat → List α} (prompt : HoldsPrompt K promptLen cache rows)
    (full : budget ≤ sinkPos + obsWin) :
    ¬ CompactionRespects topk scores K promptLen obsWin budget sinkPos poolKernel cache rows := by
  rintro ⟨after, compacted, sized, respects⟩
  obtain ⟨stored, others, rfl⟩ := List.exists_cons_of_ne_nil prompt.layered
  rw [snapkvCompactPromptCache, List.mapM_cons] at compacted
  obtain ⟨first, firstCompacted, further⟩ := Option.bind_eq_some_iff.mp compacted
  obtain ⟨rest, -, listed⟩ := Option.bind_eq_some_iff.mp further
  obtain rfl := Option.some.inj listed
  exact snapkv_layer_full slot odd long tight full (prompt.holds 0 stored rfl)
    (prompt.enough 0 (Nat.succ_pos _)) firstCompacted (respects 0 first rfl)

/-- SnapKV compaction respects its budget exactly when the budget leaves room for a position between
the first ones and the observers. Then it keeps as many positions as the budget, all first ones and
all observers, and of those between the ones with the greatest scores; otherwise it keeps them all. -/
theorem snapkv_respects_budget_iff
    (selects : ∀ keys count, count ≤ keys.length → TopK keys count (topk keys count)) (slot : 0 < K)
    (odd : poolKernel % 2 = 1) (nonneg : ∀ live position, 0 ≤ scores live position)
    (long : sinkPos + obsWin < promptLen) (tight : budget < promptLen) {cache : List (StreamLayer α)}
    {rows : Nat → List α} (prompt : HoldsPrompt K promptLen cache rows) :
    CompactionRespects topk scores K promptLen obsWin budget sinkPos poolKernel cache rows ↔
      sinkPos + obsWin < budget := by
  constructor
  · intro respects
    by_contra full
    exact not_compactionRespects_of_full slot odd long tight prompt (by omega) respects
  · exact compactionRespects_of_room selects odd nonneg tight prompt

end budget

/-- A layer that holds some rows and has room for no others. -/
def fullLayer {α : Type} (rows : List α) : StreamLayer α where
  buffer := some (rows.map some)
  count := rows.length
  maxLen := rows.length
  farEndRow := none

theorem fullLayer_holds {α : Type} (rows : List α) : (fullLayer rows).Holds rows where
  counted := rfl
  live := by
    show (rows.map some).take rows.length = rows.map some
    rw [List.take_of_length_le]
    rw [List.length_map]

theorem hundredPositions : HoldsPrompt 2 100 [fullLayer (List.range 200)] (fun _ => List.range 200) where
  layered := List.cons_ne_nil _ _
  holds := by
    intro layer stored read
    obtain rfl := List.mem_singleton.mp (List.mem_of_getElem? read)
    exact fullLayer_holds _
  enough := by
    intro layer _
    rw [List.length_range]

/-- What the last thirty-two positions of the prompt pay attention to when a row's number is its
key. A square stands for the exponential, which is as positive. -/
def observed (live : List (Option Nat)) : Nat → Rat :=
  impPos 2 (importance (fun score => 1 + score ^ 2) 1 64 200 (fun _ observer row =>
    (((live.getD (136 + observer) none).getD 0 * (live.getD row none).getD 0 : Nat) : Rat)))

theorem observed_nonneg (live : List (Option Nat)) (position : Nat) : 0 ≤ observed live position :=
  impPos_nonneg _ _ (importance_nonneg _ (fun score => add_pos_of_pos_of_nonneg one_pos (sq_nonneg score)) _ _ _ _)
    position

/-- With the usual windows a budget of sixty-four positions is respected. -/
theorem snapkv_respects_budget_iff_hundred :
    CompactionRespects (fun (keys : List Rat) count => (stableArgsort keys).take count) observed 2
        100 32 64 8 7 [fullLayer (List.range 200)] (fun _ => List.range 200) ↔ 8 + 32 < 64 :=
  snapkv_respects_budget_iff (fun keys => topK_of_sorted (stableArgsort_sorts keys)) (by decide) rfl
    observed_nonneg (by decide) (by decide) hundredPositions

/-- One of forty positions, which the first eight and the thirty-two observers use up, is not: all
hundred positions are kept. -/
theorem snapkv_exceeds_budget_hundred : 8 + 32 < 100 ∧ 40 < 100 ∧
    ¬ CompactionRespects (fun (keys : List Rat) count => (stableArgsort keys).take count) observed 2
        100 32 40 8 7 [fullLayer (List.range 200)] (fun _ => List.range 200) :=
  ⟨by decide, by decide, not_compactionRespects_of_full (by decide) rfl (by decide) (by decide)
    hundredPositions (by decide)⟩

end SpecBlock.Draft
