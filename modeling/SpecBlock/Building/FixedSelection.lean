import Mathlib.Algebra.Order.Group.Int
import SpecBlock.Building.CudaTree

/-!
# A fixed number of pending rows

The variant of the first CUDA kernel writes a fixed number of pending rows: of the rows the first
kernel would write it should keep the ones of the largest log-probabilities, the largest first, and
fill up with dummies.

It collects the rows in sixty-four places and leaves out the ones behind them, and the repeated
search starts from a large negative number, so that a row at or below it is never found. The
kernel keeps the best rows exactly when enough of the collected ones are above that number and not
smaller than any row left out.
-/

namespace SpecBlock.Building
open Segments RepeatedMax

variable {S : Type}

/-- Of some pending rows the ones of the largest log-probabilities are kept, the largest first,
each at most once and as many as there is place for; the remaining places are marked as dummies. -/
def KeepsBest [LE S] (fixedN : Nat) (entries rows : List (PendRow S)) : Prop :=
  ∃ kept left padding : List (PendRow S), rows = kept ++ padding ∧ (kept ++ left).Perm entries ∧
    kept.length = min fixedN entries.length ∧
    kept.Pairwise (fun first second => second.cumLp ≤ first.cumLp) ∧
    (∀ entry ∈ kept, ∀ other ∈ left, other.cumLp ≤ entry.cumLp) ∧
    ∀ row ∈ padding, row.tttValid = 0

/-- Among the first log-probabilities, as many as there are places for all, there are enough above
the sentinel that no later one exceeds. -/
def EnoughInReach [LT S] [LE S] [DecidableLT S] [DecidableLE S] (sentinel : S)
    (fixedN places : Nat) (lps : List S) : Prop :=
  min fixedN lps.length ≤
    (lps.take places).countP (fun lp => sentinel < lp ∧ ∀ other ∈ lps.drop places, other ≤ lp)

instance [LT S] [LE S] [DecidableLT S] [DecidableLE S] (sentinel : S) (fixedN places : Nat)
    (lps : List S) : Decidable (EnoughInReach sentinel fixedN places lps) :=
  inferInstanceAs (Decidable (_ ≤ _))

/-- Rows of one beginning without dummies and an ending of dummies have that beginning. -/
theorem beginning_unique {first second padding dummies : List (PendRow S)}
    (same : first ++ padding = second ++ dummies)
    (firstValid : ∀ entry ∈ first, entry.tttValid ≠ 0)
    (secondValid : ∀ entry ∈ second, entry.tttValid ≠ 0)
    (paddingMarked : ∀ row ∈ padding, row.tttValid = 0)
    (dummiesMarked : ∀ row ∈ dummies, row.tttValid = 0) : first = second := by
  have filtered := congrArg (List.filter (fun row => decide (row.tttValid ≠ 0))) same
  have kept : ∀ {valid marked : List (PendRow S)}, (∀ entry ∈ valid, entry.tttValid ≠ 0) →
      (∀ row ∈ marked, row.tttValid = 0) →
      (valid ++ marked).filter (fun row => decide (row.tttValid ≠ 0)) = valid := by
    intro valid marked validRows markedRows
    have all : valid.filter (fun row => decide (row.tttValid ≠ 0)) = valid :=
      List.filter_eq_self.mpr (fun entry member => decide_eq_true (validRows entry member))
    have nothing : marked.filter (fun row => decide (row.tttValid ≠ 0)) = [] :=
      List.filter_eq_nil_iff.mpr (fun row member => by simp [markedRows row member])
    rw [List.filter_append, all, nothing, List.append_nil]
  rw [kept firstValid paddingMarked, kept secondValid dummiesMarked] at filtered
  exact filtered

namespace Cuda

variable [AddCommGroup S]

section candidates

variable (params : BuildParams S) (inputs : Block1Inputs S)

/-- The log-probabilities of the alternatives, of the chain's nodes with alternatives and, if it
is pending on its own, of the chain's end. -/
def candidateLps : List S :=
  forAlts params inputs (altLp params inputs) ++
  (activeSlots params inputs).map (cumGlp inputs) ++
  if hitchAdd params inputs = 1 then [cumGlp inputs (params.K - 1)] else []

/-- What the fixed-N kernel stores, against the first kernel: the same tree, and the best pending
rows in consecutive places. -/
structure SelectsBest [LinearOrder S] (negInf : S) (fixedN : Nat) : Prop where
  tree : (buildTreeBlock1FixedNKernel params inputs negInf fixedN).tree =
    (buildTreeBlock1Kernel params inputs).tree
  places : (buildTreeBlock1FixedNKernel params inputs negInf fixedN).pend.map Prod.fst =
    List.range fixedN
  best : KeepsBest fixedN ((buildTreeBlock1Kernel params inputs).pend.map Prod.snd)
    ((buildTreeBlock1FixedNKernel params inputs negInf fixedN).pend.map Prod.snd)

theorem candidates_lps :
    (candidates params inputs).map PendRow.cumLp = candidateLps params inputs := by
  simp only [candidates, candidateLps, forAlts, List.map_append, List.map_flatMap, List.map_map]
  congr 1
  split <;> rfl

theorem buildTreeBlock1Kernel_pend :
    (buildTreeBlock1Kernel params inputs).pend.map Prod.snd = candidates params inputs := by
  simp only [buildTreeBlock1Kernel, candidates, forAlts, List.map_append, List.map_flatMap,
    List.map_map]
  congr 1
  split <;> rfl

variable {params inputs}

theorem candidates_valid (slots : 0 < params.K) (entry : PendRow S)
    (member : entry ∈ candidates params inputs) : entry.tttValid ≠ 0 := by
  rcases List.mem_append.mp member with early | hitched
  · rcases List.mem_append.mp early with alternative | chained
    · obtain ⟨k, -, listed⟩ := List.mem_flatMap.mp alternative
      obtain ⟨j, -, rfl⟩ := List.mem_map.mp listed
      exact Nat.succ_ne_zero k
    · obtain ⟨k, -, rfl⟩ := List.mem_map.mp chained
      exact Nat.succ_ne_zero k
  · by_cases hitch : hitchAdd params inputs = 1
    · rw [if_pos hitch] at hitched
      obtain rfl := List.mem_singleton.mp hitched
      exact slots.ne'
    · simp [hitch] at hitched

end candidates

omit [AddCommGroup S] in
theorem collected_eq (entries : List (PendRow S)) : collected entries = entries.take nMax := by
  have general : ∀ scratch : List (PendRow S), scratch.length ≤ nMax →
      entries.foldl (fun scratch entry =>
        if scratch.length < nMax then scratch ++ [entry] else scratch) scratch =
      scratch ++ entries.take (nMax - scratch.length) := by
    induction entries with
    | nil => simp
    | cons entry entries ih =>
      intro scratch fits
      rw [List.foldl_cons]
      by_cases room : scratch.length < nMax
      · rw [if_pos room, ih _ (by rw [List.length_append]; exact room)]
        obtain ⟨left, more⟩ := Nat.exists_eq_add_of_lt room
        have one : nMax - scratch.length = left + 1 := by omega
        have rest : nMax - (scratch ++ [entry]).length = left := by
          rw [List.length_append, List.length_singleton]
          omega
        rw [one, rest, List.take_succ_cons]
        simp
      · have full : nMax - scratch.length = 0 := by omega
        rw [if_neg room, ih _ fits, full]
        simp
  exact general [] (Nat.zero_le _)

section selection

variable [LinearOrder S] {negInf : S} {fixedN : Nat}

omit [AddCommGroup S] in
theorem fixedPend_length (negInf : S) (fixedN : Nat) (scratch : List (PendRow S)) :
    (fixedPend negInf fixedN scratch).length = fixedN := by
  obtain ⟨taken, others, spec, ran⟩ := takeLargest_spec negInf fixedN
    (scratch.map (fun entry => (entry.cumLp, entry)))
  have bound := spec.bounded
  rw [fixedPend, ran]
  simp
  omega

omit [AddCommGroup S] in
theorem fixedPend_spec (negInf : S) (fixedN : Nat) (scratch : List (PendRow S)) :
    ∃ taken others, Taken negInf fixedN (scratch.map (fun entry => (entry.cumLp, entry)))
        taken others ∧ (∀ entry ∈ taken ++ others, entry.1 = entry.2.cumLp) ∧
      fixedPend negInf fixedN scratch = taken.map Prod.snd ++
        List.replicate (fixedN - taken.length) (dummyPend negInf) := by
  obtain ⟨taken, others, spec, ran⟩ := takeLargest_spec negInf fixedN
    (scratch.map (fun entry => (entry.cumLp, entry)))
  have keyed : ∀ entry ∈ taken ++ others, entry.1 = entry.2.cumLp := by
    intro entry member
    obtain ⟨row, -, rfl⟩ := List.mem_map.mp (spec.split.subset member)
    rfl
  refine ⟨taken, others, spec, keyed, ?_⟩
  rw [fixedPend, ran, List.map_append, List.map_replicate, List.map_map]
  congr 1
  refine List.map_congr_left (fun entry member => ?_)
  have key := keyed entry (List.mem_append_left _ member)
  show { entry.2 with cumLp := entry.1 } = entry.2
  rw [key]

omit [AddCommGroup S] in
/-- Repeated search among the first entries keeps the best of all just when enough are in reach. -/
theorem keepsBest_iff (negInf : S) (fixedN places : Nat) (entries : List (PendRow S))
    (valid : ∀ entry ∈ entries, entry.tttValid ≠ 0) :
    KeepsBest fixedN entries (fixedPend negInf fixedN (entries.take places)) ↔
      EnoughInReach negInf fixedN places (entries.map PendRow.cumLp) := by
  obtain ⟨taken, others, spec, keyed, written⟩ :=
    fixedPend_spec negInf fixedN (entries.take places)
  have best := spec.best_iff ((entries.drop places).map (fun entry => (entry.cumLp, entry)))
  have total : ((entries.take places).map (fun entry => (entry.cumLp, entry))).length +
      ((entries.drop places).map (fun entry => (entry.cumLp, entry))).length = entries.length := by
    rw [List.length_map, List.length_map, ← List.length_append, List.take_append_drop]
  have reach : EnoughInReach negInf fixedN places (entries.map PendRow.cumLp) ↔
      (taken.length = min fixedN entries.length ∧
        ∀ entry ∈ taken, ∀ other ∈ entries.drop places, other.cumLp ≤ entry.1) := by
    have counts : ((entries.take places).map (fun entry => (entry.cumLp, entry))).countP
          (fun entry => negInf < entry.1 ∧ ∀ other ∈ (entries.drop places).map
            (fun entry => (entry.cumLp, entry)), other.1 ≤ entry.1) =
        ((entries.map PendRow.cumLp).take places).countP
          (fun lp => negInf < lp ∧ ∀ other ∈ (entries.map PendRow.cumLp).drop places, other ≤ lp) := by
      rw [← List.map_take, ← List.map_drop, List.countP_map, List.countP_map]
      refine List.countP_congr (fun entry _ => ?_)
      simp only [Function.comp_apply, decide_eq_true_eq, List.forall_mem_map]
    rw [total, counts] at best
    rw [EnoughInReach, List.length_map, ← best]
    simp only [List.forall_mem_map]
  have collectedRows : ((taken ++ others).map Prod.snd).Perm (entries.take places) := by
    have rows := spec.split.map Prod.snd
    simpa [Function.comp_def] using rows
  have takenValid : ∀ entry ∈ taken.map Prod.snd, entry.tttValid ≠ 0 := by
    intro entry member
    refine valid entry (List.mem_of_mem_take (collectedRows.subset ?_))
    rw [List.map_append]
    exact List.mem_append_left _ member
  have dummies : ∀ row ∈ List.replicate (fixedN - taken.length) (dummyPend negInf),
      row.tttValid = 0 := by
    intro row member
    rw [List.eq_of_mem_replicate member]
    rfl
  rw [reach]
  constructor
  · rintro ⟨kept, left, padding, same, split, full, falling, largest, marked⟩
    rw [written] at same
    have keptValid : ∀ entry ∈ kept, entry.tttValid ≠ 0 := by
      intro entry member
      exact valid entry (split.subset (List.mem_append_left _ member))
    obtain rfl := beginning_unique same takenValid keptValid dummies marked
    refine ⟨by simpa using full, fun entry member other far => ?_⟩
    have remaining : left.Perm (others.map Prod.snd ++ entries.drop places) := by
      have parts := collectedRows.append_right (entries.drop places)
      rw [List.take_append_drop, List.map_append, List.append_assoc] at parts
      exact (List.perm_append_left_iff _).mp (split.trans parts.symm)
    rw [keyed entry (List.mem_append_left _ member)]
    exact largest entry.2 (List.mem_map_of_mem member) other
      (remaining.symm.subset (List.mem_append_right _ far))
  · rintro ⟨full, best⟩
    refine ⟨taken.map Prod.snd, others.map Prod.snd ++ entries.drop places, _, written, ?_, ?_, ?_,
      ?_, dummies⟩
    · have parts := collectedRows.append_right (entries.drop places)
      rwa [List.take_append_drop, List.map_append, List.append_assoc] at parts
    · rw [List.length_map, full]
    · refine List.pairwise_map.mpr (spec.falling.imp_of_mem ?_)
      intro first second firstTaken secondTaken order
      rwa [keyed first (List.mem_append_left _ firstTaken),
        keyed second (List.mem_append_left _ secondTaken)] at order
    · intro row member other rest
      obtain ⟨entry, took, rfl⟩ := List.mem_map.mp member
      rw [← keyed entry (List.mem_append_left _ took)]
      rcases List.mem_append.mp rest with searched | far
      · obtain ⟨skipped, passed, rfl⟩ := List.mem_map.mp searched
        rw [← keyed skipped (List.mem_append_right _ passed)]
        exact spec.largest entry took skipped passed
      · exact best entry took other far

theorem buildTreeBlock1FixedNKernel_pend (params : BuildParams S) (inputs : Block1Inputs S)
    (negInf : S) (fixedN : Nat) :
    (buildTreeBlock1FixedNKernel params inputs negInf fixedN).pend.map Prod.fst =
        List.range fixedN ∧
      (buildTreeBlock1FixedNKernel params inputs negInf fixedN).pend.map Prod.snd =
        fixedPend negInf fixedN ((candidates params inputs).take nMax) := by
  have lengths := fixedPend_length negInf fixedN
    ((candidates params inputs).take nMax)
  constructor
  · rw [buildTreeBlock1FixedNKernel, collected_eq, List.map_fst_zip]
    rw [lengths, List.length_range]
  · rw [buildTreeBlock1FixedNKernel, collected_eq, List.map_snd_zip]
    rw [lengths, List.length_range]

/-- The kernel selects the best rows just when enough of the collected ones are in reach. -/
theorem selectsBest_iff_inReach (params : BuildParams S) (inputs : Block1Inputs S)
    (slots : 0 < params.K) :
    SelectsBest params inputs negInf fixedN ↔
      EnoughInReach negInf fixedN nMax (candidateLps params inputs) := by
  have rows := buildTreeBlock1FixedNKernel_pend params inputs negInf fixedN
  have best := keepsBest_iff negInf fixedN nMax (candidates params inputs)
    (candidates_valid slots)
  rw [candidates_lps] at best
  constructor
  · intro selected
    have kept := selected.best
    rw [rows.2, buildTreeBlock1Kernel_pend] at kept
    exact best.mp kept
  · intro enough
    constructor
    · rfl
    · exact rows.1
    · rw [rows.2, buildTreeBlock1Kernel_pend]
      exact best.mpr enough

/-- **Fixed-N selection.** Whatever the slots, tables, modes and inputs are, the fixed-N kernel
writes the first kernel's tree and its best pending rows exactly when enough of the first sixty-four
log-probabilities are above the sentinel and not exceeded behind the sixty-fourth. -/
theorem buildTreeBlock1FixedNKernel_selects (params : BuildParams S) (inputs : Block1Inputs S)
    (negInf : S) (fixedN : Nat) (slots : 0 < params.K) :
    SelectsBest params inputs negInf fixedN ↔
      EnoughInReach negInf fixedN 64 (candidateLps params inputs) :=
  selectsBest_iff_inReach params inputs slots

end selection

/-- Eight slots of ten children, with a greedy token far ahead of the others in each. -/
def wideInputs : Block1Inputs Int where
  rankPreds := fun _ => 2
  greedyTarget := fun slot => slot
  greedyLps := fun _ => -1
  allTopTarget := fun column => column
  allTopLps := fun column => if column % 10 = 0 then -1 else -20
  rankSlotTopkTable := fun _ => 10

/-- The arguments for eight slots and a beam of ten, without an adaptive mode. -/
def wideParams : BuildParams Int where
  beamWidth := 10
  K := 8
  maxTopk := 10
  giveUpClass := 3
  adaptiveSlot0 := 0
  adaptiveAll := 0
  atLeast := fun _ _ => false

/-- The seventy-two alternatives fill the sixty-four places, and the chain is left out. -/
theorem buildTreeBlock1FixedNKernel_drops :
    ¬ SelectsBest wideParams wideInputs (-1000000000000000000000000000000) 15 := by
  intro selected
  exact absurd ((selectsBest_iff_inReach wideParams wideInputs (by decide)).mp selected)
    (by decide +kernel)

/-- With four slots all entries fit. -/
theorem buildTreeBlock1FixedNKernel_selects_four :
    SelectsBest { wideParams with K := 4 } wideInputs (-1000000000000000000000000000000) 15 :=
  (buildTreeBlock1FixedNKernel_selects { wideParams with K := 4 } wideInputs
    (-1000000000000000000000000000000) 15 (by decide)).mpr (by decide +kernel)

end Cuda

end SpecBlock.Building
