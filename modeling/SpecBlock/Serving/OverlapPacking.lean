import SpecBlock.Foundation.Stores
import SpecBlock.Serving.OverlapWorker
import SpecBlock.Serving.RefreshPlan

/-!
# Handing accepted chains to the overlap scheduler

A verify pass returns its accepted chains as one flat list. `_pack_verified_ids_for_scheduler`
spreads it over rows of a fixed stride: the row of an entry is found by a right-sided search
among the ends of the chains, and the entries are scattered into zeros. The scheduler slices
each row again by the chain's length.

An entry that lies on the end of a chain belongs to the next one, which is what the
right-sided search says. So the chains come back as they were and nothing lies outside them.
-/

namespace SpecBlock.Serving

/-- `torch.searchsorted` with `right=True`: how many of the ascending ends an index has passed. -/
def searchsortedRight (ends : List Nat) (index : Nat) : Nat :=
  (ends.takeWhile (fun stop => decide (stop ≤ index))).length

/-- Where the entry at a flat index goes: its row, and its distance from the row's start. -/
def packDestination (acceptLens : List Nat) (stride source : Nat) : Nat :=
  let ends := cumsum 0 acceptLens
  let starts := List.zipWith (· - ·) ends acceptLens
  let row := searchsortedRight ends source
  row * stride + source - starts.getD row 0

/-- `_pack_verified_ids_for_scheduler`: the scatter stores its entries in some order. -/
def PackVerifiedIdsForScheduler (verifiedIds acceptLens : List Nat) (stride : Nat)
    (packed : Except RuntimeError (List Nat)) : Prop :=
  if stride = 0 then packed = .error ⟨s!"Invalid SpecBlock V2 scheduler stride {stride}."⟩
  else ∃ memory : Nat → Nat,
    Stores.Outcome (fun _ => 0) (((List.range verifiedIds.length).map
      (packDestination acceptLens stride)).zip verifiedIds) memory ∧
    packed = .ok ((List.range (acceptLens.length * stride)).map memory)

/-- What the scheduler counts for a request when it resolves a round. -/
structure SpecCounts where
  kvCommittedLen : Nat
  specVerifyCt : Nat
  specAcceptedTokens : Nat
  deriving DecidableEq, Repr

/-- A resolved round of the overlap scheduler. -/
structure ResolvedRound where
  numAcceptedTokens : Int
  acceptLengthPerReqCpu : List Int
  counts : List SpecCounts
  predictTokens : List (List Nat)
  deriving DecidableEq, Repr

/-- `_resolve_spec_overlap_token_ids`: slice one chain from each row of the stride. -/
def resolveSpecOverlapTokenIds (nextTokenIds acceptLens : List Nat) (stride : Nat)
    (reqs : List SpecCounts) : ResolvedRound where
  numAcceptedTokens := acceptLens.sum - reqs.length
  acceptLengthPerReqCpu := acceptLens.map (fun length => (length : Int) - 1)
  counts := List.zipWith (fun req length => {
    kvCommittedLen := req.kvCommittedLen + length
    specVerifyCt := req.specVerifyCt + 1
    specAcceptedTokens := req.specAcceptedTokens + (length - 1) }) reqs acceptLens
  predictTokens := (List.range reqs.length).map (fun i =>
    (nextTokenIds.take (i * stride + acceptLens.getD i 0)).drop (i * stride))

/-- An index inside a chain has passed the ends of the chains before it. -/
theorem searchsortedRight_cumsum (total : Nat) (lengths : List Nat) (row offset : Nat)
    (length : Nat) (read : lengths[row]? = some length) (inside : offset < length) :
    searchsortedRight (cumsum total lengths) (total + (lengths.take row).sum + offset) = row := by
  induction lengths generalizing total row with
  | nil => simp at read
  | cons first lengths ih =>
    cases row with
    | zero =>
      obtain rfl : first = length := by simpa using read
      have short : ¬ total + first ≤ total + offset := by omega
      simp [searchsortedRight, cumsum, short]
    | succ row =>
      have later : lengths[row]? = some length := by simpa using read
      have same : total + ((first :: lengths).take (row + 1)).sum + offset =
          total + first + (lengths.take row).sum + offset := by
        rw [List.take_succ_cons, List.sum_cons]
        omega
      have rest := ih (total + first) row later
      have passed : total + first ≤ total + first + (lengths.take row).sum + offset := by omega
      rw [same]
      simp only [searchsortedRight, cumsum, List.takeWhile_cons, passed, decide_true, if_true,
        List.length_cons] at rest ⊢
      rw [rest]

/-- An entry of a chain goes into the chain's row, at its place in the chain. -/
theorem packDestination_chain (acceptLens : List Nat) (stride row offset length : Nat)
    (read : acceptLens[row]? = some length) (inside : offset < length) :
    packDestination acceptLens stride ((acceptLens.take row).sum + offset) =
      row * stride + offset := by
  have found := searchsortedRight_cumsum 0 acceptLens row offset length read inside
  have start := starts_cumsum 0 acceptLens row (List.getElem?_eq_some_iff.mp read).1
  rw [Nat.zero_add] at found start
  simp only [packDestination, found, start]
  omega

section chains

variable {chains : List (List Nat)}

theorem exists_chain (index token : Nat) (read : chains.flatten[index]? = some token) :
    ∃ (row offset : Nat) (chain : List Nat), chains[row]? = some chain ∧
      chain[offset]? = some token ∧ index = ((chains.map List.length).take row).sum + offset := by
  induction chains generalizing index with
  | nil => simp at read
  | cons first chains ih =>
    rw [List.flatten_cons] at read
    by_cases here : index < first.length
    · rw [List.getElem?_append_left here] at read
      exact ⟨0, index, first, rfl, read, by simp⟩
    · rw [List.getElem?_append_right (by omega)] at read
      obtain ⟨row, offset, chain, found, entry, same⟩ := ih _ read
      refine ⟨row + 1, offset, chain, found, entry, ?_⟩
      rw [List.map_cons, List.take_succ_cons, List.sum_cons]
      omega

/-- The entries of a chain follow those of the chains before it. -/
theorem flatten_chain (row offset token : Nat) (chain : List Nat) (found : chains[row]? = some chain)
    (entry : chain[offset]? = some token) :
    chains.flatten[((chains.map List.length).take row).sum + offset]? = some token := by
  induction chains generalizing row with
  | nil => simp at found
  | cons first chains ih =>
    have inside : offset < chain.length := (List.getElem?_eq_some_iff.mp entry).1
    cases row with
    | zero =>
      obtain rfl : first = chain := by simpa using found
      rw [List.take_zero, List.sum_nil, Nat.zero_add, List.flatten_cons,
        List.getElem?_append_left inside]
      exact entry
    | succ row =>
      rw [List.map_cons, List.take_succ_cons, List.sum_cons, List.flatten_cons,
        List.getElem?_append_right (by omega),
        show first.length + ((chains.map List.length).take row).sum + offset - first.length =
          ((chains.map List.length).take row).sum + offset by omega]
      exact ih row (by simpa using found)

/-- The scatter stores the entries of each chain into the chain's row, and nothing else. -/
theorem mem_packStores (stride : Nat) (stored : Nat × Nat) :
    stored ∈ ((List.range chains.flatten.length).map
        (packDestination (chains.map List.length) stride)).zip chains.flatten ↔
      ∃ (row offset : Nat) (chain : List Nat) (token : Nat), chains[row]? = some chain ∧
        chain[offset]? = some token ∧ stored = (row * stride + offset, token) := by
  constructor
  · intro member
    obtain ⟨index, read⟩ := List.mem_iff_getElem?.mp member
    obtain ⟨place, token⟩ := stored
    obtain ⟨placeRead, tokenRead⟩ := List.getElem?_zip_eq_some.mp read
    obtain ⟨row, offset, chain, found, entry, same⟩ := exists_chain index token tokenRead
    have length : (chains.map List.length)[row]? = some chain.length := by
      rw [List.getElem?_map, found]
      rfl
    have inside : offset < chain.length := (List.getElem?_eq_some_iff.mp entry).1
    have bound : index < chains.flatten.length := (List.getElem?_eq_some_iff.mp tokenRead).1
    rw [List.getElem?_map, List.getElem?_range bound, Option.map_some, Option.some_inj, same,
      packDestination_chain _ _ _ _ _ length inside] at placeRead
    exact ⟨row, offset, chain, token, found, entry, by rw [placeRead]⟩
  · rintro ⟨row, offset, chain, token, found, entry, rfl⟩
    have flat := flatten_chain row offset token chain found entry
    have bound := (List.getElem?_eq_some_iff.mp flat).1
    have length : (chains.map List.length)[row]? = some chain.length := by
      rw [List.getElem?_map, found]
      rfl
    have inside : offset < chain.length := (List.getElem?_eq_some_iff.mp entry).1
    apply List.mem_iff_getElem?.mpr
    refine ⟨((chains.map List.length).take row).sum + offset, List.getElem?_zip_eq_some.mpr ⟨?_, flat⟩⟩
    rw [List.getElem?_map, List.getElem?_range bound, Option.map_some,
      packDestination_chain _ _ _ _ _ length inside]

variable {stride : Nat} {memory : Nat → Nat}

/-- After the scatter a row holds its chain from its start on. -/
theorem packed_chain (fits : ∀ chain ∈ chains, chain.length ≤ stride)
    (outcome : Stores.Outcome (fun _ => 0) (((List.range chains.flatten.length).map
      (packDestination (chains.map List.length) stride)).zip chains.flatten) memory)
    (row offset token : Nat) (chain : List Nat) (found : chains[row]? = some chain)
    (entry : chain[offset]? = some token) : memory (row * stride + offset) = token := by
  apply outcome.agreed ((mem_packStores stride _).mpr ⟨row, offset, chain, token, found, entry, rfl⟩)
  intro stored member here
  obtain ⟨row', offset', chain', token', found', entry', rfl⟩ := (mem_packStores stride _).mp member
  have inside : offset < stride := Nat.lt_of_lt_of_le (List.getElem?_eq_some_iff.mp entry).1
    (fits chain (List.mem_of_getElem? found))
  have inside' : offset' < stride := Nat.lt_of_lt_of_le (List.getElem?_eq_some_iff.mp entry').1
    (fits chain' (List.mem_of_getElem? found'))
  obtain ⟨rfl, rfl⟩ := Stores.address_inj inside' inside here
  obtain rfl := Option.some.inj (found.symm.trans found')
  exact Option.some.inj (entry'.symm.trans entry)

theorem packed_zero
    (outcome : Stores.Outcome (fun _ => 0) (((List.range chains.flatten.length).map
      (packDestination (chains.map List.length) stride)).zip chains.flatten) memory)
    (cell : Nat) (outside : ∀ (row : Nat) (chain : List Nat), chains[row]? = some chain →
      ¬ (row * stride ≤ cell ∧ cell < row * stride + chain.length)) : memory cell = 0 := by
  apply outcome.frame
  intro stored member here
  obtain ⟨row, offset, chain, token, found, entry, rfl⟩ := (mem_packStores stride _).mp member
  have inside : offset < chain.length := (List.getElem?_eq_some_iff.mp entry).1
  exact outside row chain found ⟨by omega, by omega⟩

end chains

/-- Packing accepted chains and slicing them again gives them back in order, and every cell
outside the slices is zero. -/
theorem pack_resolve_chains (chains : List (List Nat)) (stride : Nat) (positive : 0 < stride)
    (lengths : ∀ chain ∈ chains, 1 ≤ chain.length ∧ chain.length ≤ stride)
    (reqs : List SpecCounts) (count : reqs.length = chains.length)
    (packed : Except RuntimeError (List Nat))
    (ran : PackVerifiedIdsForScheduler chains.flatten (chains.map List.length) stride packed) :
    ∃ cells, packed = .ok cells ∧ cells.length = chains.length * stride ∧
      (resolveSpecOverlapTokenIds cells (chains.map List.length) stride reqs).predictTokens =
        chains ∧
      ∀ cell < cells.length, (∀ (row : Nat) (chain : List Nat), chains[row]? = some chain →
        ¬ (row * stride ≤ cell ∧ cell < row * stride + chain.length)) → cells[cell]? = some 0 := by
  unfold PackVerifiedIdsForScheduler at ran
  rw [if_neg (by omega)] at ran
  obtain ⟨memory, outcome, rfl⟩ := ran
  rw [List.length_map]
  have fits : ∀ chain ∈ chains, chain.length ≤ stride := fun chain member => (lengths chain member).2
  refine ⟨_, rfl, by simp, ?_, ?_⟩
  · apply List.ext_getElem (by simp [resolveSpecOverlapTokenIds, count])
    intro row low high
    have found := List.getElem?_eq_getElem high
    have short := fits _ (List.getElem_mem high)
    have room : row * stride + stride ≤ chains.length * stride := by
      rw [← Nat.succ_mul]
      exact Nat.mul_le_mul_right stride high
    simp only [resolveSpecOverlapTokenIds, List.getElem_map, List.getElem_range,
      List.getD_eq_getElem?_getD, List.getElem?_map, found, Option.map_some, Option.getD_some]
    apply List.ext_getElem
    · simp only [List.length_drop, List.length_take, List.length_map, List.length_range]
      omega
    intro offset lowOffset highOffset
    rw [List.getElem_drop, List.getElem_take, List.getElem_map, List.getElem_range]
    exact packed_chain fits outcome row offset _ _ found (List.getElem?_eq_getElem highOffset)
  · intro cell inside outside
    rw [List.length_map, List.length_range] at inside
    rw [List.getElem?_map, List.getElem?_range inside, Option.map_some,
      packed_zero outcome cell outside]

/-- Chains of one, two and three tokens under a stride of three. -/
theorem pack_resolve_chains_three : ∃ cells,
    PackVerifiedIdsForScheduler [5, 6, 7, 8, 9, 4] [1, 2, 3] 3 (.ok cells) ∧
      (resolveSpecOverlapTokenIds cells [1, 2, 3] 3
        [⟨4, 0, 0⟩, ⟨9, 1, 2⟩, ⟨7, 3, 3⟩]).predictTokens = [[5], [6, 7], [8, 9, 4]] := by
  have ran : PackVerifiedIdsForScheduler [5, 6, 7, 8, 9, 4] [1, 2, 3] 3 _ :=
    ⟨_, Stores.Outcome.listed _ _, rfl⟩
  obtain ⟨cells, same, -, resolved, -⟩ := pack_resolve_chains [[5], [6, 7], [8, 9, 4]] 3
    (by decide) (by decide) [⟨4, 0, 0⟩, ⟨9, 1, 2⟩, ⟨7, 3, 3⟩] rfl _ ran
  exact ⟨cells, same ▸ ran, resolved⟩

end SpecBlock.Serving
