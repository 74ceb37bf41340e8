import Mathlib.Data.List.Basic
import Mathlib.Data.List.Perm.Basic
import Mathlib.Order.Basic
import Mathlib.Order.Defs.LinearOrder
import Mathlib.Order.Lattice

/-!
# The largest entries by repeated search

To take the largest of some keyed entries, a search for the largest key above a sentinel is
repeated; the entry that is found is taken, and its key is overwritten by the sentinel. A search
that finds nothing takes nothing.

Entries at or below the sentinel are never taken. Of the others as many are taken as there are
searches, the largest first, and each at most once. When a search does not reach all entries, the
ones it takes are the largest of all only if enough of the entries in reach are.
-/

namespace SpecBlock.RepeatedMax

universe u v
variable {S : Type u} {α : Type v} [LinearOrder S]

/-- The first largest key above the sentinel and its place, among the first entries. -/
def bestUpTo (sentinel : S) (entries : List (S × α)) : Nat → Option Nat × S
  | 0 => (none, sentinel)
  | place + 1 =>
    let best := bestUpTo sentinel entries place
    match entries[place]? with
    | some entry => if best.2 < entry.1 then (some place, entry.1) else best
    | none => best

/-- Search and overwrite so many times. -/
def takeLargest (sentinel : S) : Nat → List (S × α) → List (Option (S × α))
  | 0, _ => []
  | searches + 1, entries =>
    match (bestUpTo sentinel entries entries.length).1.bind (fun place =>
      (entries[place]?).map (fun entry => (place, entry))) with
    | some (place, entry) =>
      some entry :: takeLargest sentinel searches (entries.set place (sentinel, entry.2))
    | none => none :: takeLargest sentinel searches entries

/-- Entries split into those taken and the others. -/
structure Taken (sentinel : S) (searches : Nat) (entries taken others : List (S × α)) : Prop where
  split : (taken ++ others).Perm entries
  falling : taken.Pairwise (fun first second => second.1 ≤ first.1)
  above : ∀ entry ∈ taken, sentinel < entry.1
  largest : ∀ entry ∈ taken, ∀ other ∈ others, other.1 ≤ entry.1
  bounded : taken.length ≤ searches
  exhausted : taken.length = searches ∨ ∀ other ∈ others, other.1 ≤ sentinel

variable {sentinel : S} {entries : List (S × α)}

/-- What a search has found before a turn: no key above the sentinel, or a largest one. -/
theorem bestUpTo_spec (sentinel : S) (entries : List (S × α)) (turn : Nat) :
    (∀ place < turn, ∀ entry, entries[place]? = some entry →
        entry.1 ≤ (bestUpTo sentinel entries turn).2) ∧
      (bestUpTo sentinel entries turn = (none, sentinel) ∨
        ∃ place entry, entries[place]? = some entry ∧ sentinel < entry.1 ∧
          bestUpTo sentinel entries turn = (some place, entry.1)) := by
  induction turn with
  | zero => exact ⟨fun place low => absurd low (Nat.not_lt_zero _), .inl rfl⟩
  | succ turn ih =>
    obtain ⟨bounded, found⟩ := ih
    have sentinelLow : sentinel ≤ (bestUpTo sentinel entries turn).2 := by
      rcases found with nothing | ⟨place, entry, -, above, same⟩
      · rw [nothing]
      · rw [same]
        exact above.le
    cases read : entries[turn]? with
    | none =>
      have kept : bestUpTo sentinel entries (turn + 1) = bestUpTo sentinel entries turn := by
        simp [bestUpTo, read]
      rw [kept]
      refine ⟨fun place low entry listed => ?_, found⟩
      rcases Nat.lt_succ_iff_lt_or_eq.mp low with earlier | rfl
      · exact bounded place earlier entry listed
      · simp [read] at listed
    | some entry =>
      by_cases larger : (bestUpTo sentinel entries turn).2 < entry.1
      · have better : bestUpTo sentinel entries (turn + 1) = (some turn, entry.1) := by
          simp [bestUpTo, read, larger]
        rw [better]
        refine ⟨fun place low other listed => ?_, .inr ⟨turn, entry, read, ?_, rfl⟩⟩
        · rcases Nat.lt_succ_iff_lt_or_eq.mp low with earlier | rfl
          · exact (bounded place earlier other listed).trans larger.le
          · obtain rfl := Option.some.inj (read.symm.trans listed)
            exact le_refl _
        · exact sentinelLow.trans_lt larger
      · have kept : bestUpTo sentinel entries (turn + 1) = bestUpTo sentinel entries turn := by
          simp [bestUpTo, read, larger]
        rw [kept]
        refine ⟨fun place low other listed => ?_, found⟩
        rcases Nat.lt_succ_iff_lt_or_eq.mp low with earlier | rfl
        · exact bounded place earlier other listed
        · obtain rfl := Option.some.inj (read.symm.trans listed)
          exact not_lt.mp larger

theorem takeLargest_none (searches : Nat) (low : ∀ entry ∈ entries, entry.1 ≤ sentinel) :
    takeLargest sentinel searches entries = List.replicate searches none := by
  induction searches with
  | zero => rfl
  | succ searches ih =>
    obtain ⟨-, nothing | ⟨place, entry, read, above, -⟩⟩ :=
      bestUpTo_spec sentinel entries entries.length
    · rw [takeLargest, nothing]
      show none :: takeLargest sentinel searches entries = _
      rw [ih, List.replicate_succ]
    · exact absurd (low entry (List.mem_of_getElem? read)) (not_le.mpr above)

/-- Repeated search takes the largest entries above the sentinel. -/
theorem takeLargest_spec (sentinel : S) (searches : Nat) (entries : List (S × α)) :
    ∃ taken others, Taken sentinel searches entries taken others ∧
      takeLargest sentinel searches entries =
        taken.map some ++ List.replicate (searches - taken.length) none := by
  induction searches generalizing entries with
  | zero =>
    refine ⟨[], entries, ⟨List.Perm.refl _, List.Pairwise.nil, ?_, ?_, Nat.le_refl _, .inl rfl⟩, rfl⟩
    · intro entry member
      simp at member
    · intro entry member
      simp at member
  | succ searches ih =>
    obtain ⟨bounded, nothing | ⟨place, entry, read, above, found⟩⟩ :=
      bestUpTo_spec sentinel entries entries.length
    · have low : ∀ entry ∈ entries, entry.1 ≤ sentinel := by
        intro entry member
        obtain ⟨place, inside, rfl⟩ := List.mem_iff_getElem.mp member
        have bound := bounded place inside _ (List.getElem?_eq_getElem inside)
        rwa [nothing] at bound
      refine ⟨[], entries, ⟨List.Perm.refl _, List.Pairwise.nil, by simp, by simp, by simp,
        .inr low⟩, ?_⟩
      rw [takeLargest_none _ low]
      simp
    · have inside := (List.getElem?_eq_some_iff.mp read).1
      have here := (List.getElem?_eq_some_iff.mp read).2
      have parts : entries = entries.take place ++ entry :: entries.drop (place + 1) := by
        rw [← here, List.getElem_cons_drop, List.take_append_drop]
      have marked : entries.set place (sentinel, entry.2) =
          entries.take place ++ (sentinel, entry.2) :: entries.drop (place + 1) := by
        rw [List.set_eq_take_append_cons_drop, if_pos inside]
      obtain ⟨taken, others, spec, ran⟩ := ih (entries.set place (sentinel, entry.2))
      have listed : (sentinel, entry.2) ∈ taken ++ others := by
        rw [spec.split.mem_iff, marked]
        simp
      have inOthers : (sentinel, entry.2) ∈ others := by
        rcases List.mem_append.mp listed with early | late
        · exact absurd (spec.above _ early) (lt_irrefl _)
        · exact late
      obtain ⟨front, back, rfl⟩ := List.append_of_mem inOthers
      have rest : (taken ++ (front ++ back)).Perm
          (entries.take place ++ entries.drop (place + 1)) := by
        have moved := spec.split
        rw [marked, ← List.append_assoc] at moved
        have cleared := (List.perm_middle.symm.trans moved).trans List.perm_middle
        rw [List.append_assoc] at cleared
        exact cleared.cons_inv
      have fromEntries : ∀ other ∈ taken ++ (front ++ back), other ∈ entries := by
        intro other member
        have kept := rest.subset member
        rw [parts]
        rcases List.mem_append.mp kept with early | late
        · exact List.mem_append_left _ early
        · exact List.mem_append_right _ (List.mem_cons_of_mem _ late)
      have smaller : ∀ other ∈ entries, other.1 ≤ entry.1 := by
        intro other member
        obtain ⟨spot, within, rfl⟩ := List.mem_iff_getElem.mp member
        have bound := bounded spot within _ (List.getElem?_eq_getElem within)
        rwa [found] at bound
      refine ⟨entry :: taken, front ++ back, ⟨?_, ?_, ?_, ?_, ?_, ?_⟩, ?_⟩
      · rw [parts]
        exact (rest.cons entry).trans List.perm_middle.symm
      · refine List.pairwise_cons.mpr ⟨fun other member => ?_, spec.falling⟩
        exact smaller other (fromEntries other (List.mem_append_left _ member))
      · intro other member
        rcases List.mem_cons.mp member with rfl | member
        · exact above
        · exact spec.above other member
      · intro chosen member other left
        rcases List.mem_cons.mp member with rfl | member
        · exact smaller other (fromEntries other (List.mem_append_right _ left))
        · refine spec.largest chosen member other ?_
          rcases List.mem_append.mp left with early | late
          · exact List.mem_append_left _ early
          · exact List.mem_append_right _ (List.mem_cons_of_mem _ late)
      · simpa using spec.bounded
      · rcases spec.exhausted with full | low
        · exact .inl (by simpa using full)
        · refine .inr (fun other member => low other ?_)
          rcases List.mem_append.mp member with early | late
          · exact List.mem_append_left _ early
          · exact List.mem_append_right _ (List.mem_cons_of_mem _ late)
      · rw [takeLargest, found]
        simp only [Option.bind_some, read, Option.map_some]
        rw [ran]
        simp

/-- When some of the entries are out of the search's reach: as many entries as asked for are taken,
and none is smaller than one out of reach, just when enough entries in reach lie above the sentinel
and are not smaller than one out of reach. -/
theorem Taken.best_iff {searches : Nat} {taken others : List (S × α)} (missed : List (S × α))
    (spec : Taken sentinel searches entries taken others) :
    (taken.length = min searches (entries.length + missed.length) ∧
      ∀ entry ∈ taken, ∀ other ∈ missed, other.1 ≤ entry.1) ↔
    min searches (entries.length + missed.length) ≤
      entries.countP (fun entry => sentinel < entry.1 ∧ ∀ other ∈ missed, other.1 ≤ entry.1) := by
  have counted := spec.split.countP_eq
    (fun entry => decide (sentinel < entry.1 ∧ ∀ other ∈ missed, other.1 ≤ entry.1))
  have sizes := spec.split.length_eq
  rw [List.countP_append] at counted
  rw [List.length_append] at sizes
  constructor
  · rintro ⟨full, best⟩
    have all : taken.countP (fun entry => decide (sentinel < entry.1 ∧
        ∀ other ∈ missed, other.1 ≤ entry.1)) = taken.length := by
      refine List.countP_eq_length.mpr (fun entry member => ?_)
      exact decide_eq_true ⟨spec.above entry member, best entry member⟩
    omega
  · intro enough
    have few := List.countP_le_length (l := taken)
      (p := fun entry => decide (sentinel < entry.1 ∧ ∀ other ∈ missed, other.1 ≤ entry.1))
    have bound := spec.bounded
    constructor
    · rcases spec.exhausted with full | low
      · omega
      · have nothing : others.countP (fun entry => decide (sentinel < entry.1 ∧
            ∀ other ∈ missed, other.1 ≤ entry.1)) = 0 := by
          refine List.countP_eq_zero.mpr (fun entry member good => ?_)
          exact absurd (of_decide_eq_true good).1 (not_lt.mpr (low entry member))
        omega
    · intro entry member other far
      by_contra smaller
      -- an entry that was not taken would be as large as every missed one, but is no larger
      have fewer : taken.countP (fun entry => decide (sentinel < entry.1 ∧
          ∀ other ∈ missed, other.1 ≤ entry.1)) < taken.length := by
        refine Nat.lt_of_le_of_ne few (fun all => smaller ?_)
        exact (of_decide_eq_true (List.countP_eq_length.mp all entry member)).2 other far
      have left : 0 < others.countP (fun entry => decide (sentinel < entry.1 ∧
          ∀ other ∈ missed, other.1 ≤ entry.1)) := by omega
      obtain ⟨better, remains, good⟩ := List.countP_pos_iff.mp left
      have order := (of_decide_eq_true good).2 other far
      exact smaller (order.trans (spec.largest entry member better remains))

end SpecBlock.RepeatedMax
