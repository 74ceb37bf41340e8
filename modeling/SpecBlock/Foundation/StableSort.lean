import Mathlib.Data.List.Sort

/-!
# The first of the best after a stable sort

A list is sorted by a falling key. Insertion keeps equal keys in the order they stood in, so with
the entries of a rising list the sort is strict: one entry precedes another when its key is higher,
or when the keys are equal and the entry is smaller. The head of the sorted list is therefore the
one entry that no other precedes, and its tail are all the entries that some other precedes.
-/

namespace SpecBlock.StableSort

universe u v
variable {α : Type u} {κ : Type v} [LinearOrder α] [LinearOrder κ] (key : α → κ)

/-- A higher key comes first, and of equal keys the smaller entry. -/
def Precedes (first second : α) : Prop :=
  key second < key first ∨ (key second = key first ∧ first < second)

variable {key}

theorem Precedes.asymm {first second : α} (ordered : Precedes key first second) :
    ¬ Precedes key second first := by
  rintro (lower | ⟨same, before⟩) <;> rcases ordered with higher | ⟨again, after⟩
  · exact lower.asymm higher
  · exact lower.ne again.symm
  · exact higher.ne same.symm
  · exact before.asymm after

theorem Precedes.trans {first second third : α} (ordered : Precedes key first second)
    (further : Precedes key second third) : Precedes key first third := by
  rcases ordered with higher | ⟨same, before⟩ <;> rcases further with above | ⟨again, after⟩
  · exact .inl (above.trans higher)
  · exact .inl (again ▸ higher)
  · exact .inl (same ▸ above)
  · exact .inr ⟨again.trans same, before.trans after⟩

variable (key)

/-- The order that sorts by falling key and leaves equal keys where they are. -/
def falling (first second : α) : Prop := key second ≤ key first

instance : DecidableRel (falling key : α → α → Prop) :=
  fun first second => inferInstanceAs (Decidable (key second ≤ key first))

/-- Inserting an entry smaller than all others keeps the strict order. -/
theorem orderedInsert_precedes (entry : α) (entries : List α) (smaller : ∀ other ∈ entries, entry < other)
    (sorted : entries.Pairwise (Precedes key)) :
    (entries.orderedInsert (falling key) entry).Pairwise (Precedes key) := by
  induction entries with
  | nil => simp
  | cons first rest ih =>
    obtain ⟨ahead, sortedRest⟩ := List.pairwise_cons.mp sorted
    rw [List.orderedInsert]
    split
    · next high =>
      have leads : Precedes key entry first := by
        rcases (show key first ≤ key entry from high).lt_or_eq with lower | same
        · exact .inl lower
        · exact .inr ⟨same, smaller first List.mem_cons_self⟩
      refine List.pairwise_cons.mpr ⟨fun other member => ?_, sorted⟩
      rcases List.mem_cons.mp member with rfl | later
      · exact leads
      · exact leads.trans (ahead other later)
    · next low =>
      refine List.pairwise_cons.mpr ⟨fun other member => ?_, ih
        (fun other member => smaller other (List.mem_cons_of_mem first member)) sortedRest⟩
      rcases List.mem_cons.mp ((List.perm_orderedInsert _ entry rest).mem_iff.mp member) with rfl | later
      · exact .inl (lt_of_not_ge low)
      · exact ahead other later

theorem insertionSort_precedes (entries : List α) (rising : entries.Pairwise (· < ·)) :
    (entries.insertionSort (falling key)).Pairwise (Precedes key) := by
  induction entries with
  | nil => simp
  | cons entry rest ih =>
    obtain ⟨smaller, risingRest⟩ := List.pairwise_cons.mp rising
    rw [List.insertionSort_cons]
    refine orderedInsert_precedes key entry _ (fun other member => ?_) (ih risingRest)
    exact smaller other ((List.perm_insertionSort (falling key) rest).mem_iff.mp member)

/-- Behind the head of the sorted list stand the entries that another one precedes. -/
theorem mem_tail_insertionSort (entries : List α) (rising : entries.Pairwise (· < ·)) (entry : α) :
    entry ∈ (entries.insertionSort (falling key)).tail ↔
      entry ∈ entries ∧ ∃ other ∈ entries, Precedes key other entry := by
  have sorted := insertionSort_precedes key entries rising
  have perm := List.perm_insertionSort (falling key) entries
  generalize entries.insertionSort (falling key) = order at sorted perm
  simp only [← perm.mem_iff]
  cases order with
  | nil => simp
  | cons head tail =>
    obtain ⟨leads, -⟩ := List.pairwise_cons.mp sorted
    rw [List.tail_cons]
    constructor
    · exact fun behind => ⟨List.mem_cons_of_mem head behind, head, List.mem_cons_self,
        leads entry behind⟩
    · rintro ⟨listed, other, among, before⟩
      rcases List.mem_cons.mp listed with rfl | behind
      · rcases List.mem_cons.mp among with rfl | later
        · exact absurd before before.asymm
        · exact absurd before (leads other later).asymm
      · exact behind

end SpecBlock.StableSort
