import Mathlib.Data.Finset.Card
import Mathlib.Data.Finset.Max
import Mathlib.Data.List.Pairwise

/-!
# Greedy choice of closed sets under a budget

Each element needs finitely many others, itself included, and whatever those need. Two
elements never need each other. Candidates are visited in some order: a candidate is chosen
together with all it needs when the choice stays within the budget, and passed over otherwise.

A candidate that was passed over may fit later, when others have brought in what it needs.
Still the choice ends at the budget whenever there is enough to choose from, for any order:
an element whose needs are all chosen in the end cost one when it was visited. When every
candidate comes after what it needs, the choice is a prefix of the candidates.
-/

namespace SpecBlock.BudgetClosure

universe u v
variable {α : Type u} [DecidableEq α] {needs : α → Finset α} {budget : Nat} {kept whole : Finset α}

/-- Needs of a finite partial order: reflexive, transitive, and never mutual. -/
structure Needs (needs : α → Finset α) : Prop where
  self : ∀ element, element ∈ needs element
  trans : ∀ element other, other ∈ needs element → needs other ⊆ needs element
  antisymm : ∀ element other, other ∈ needs element → element ∈ needs other → element = other

/-- A set that holds what its elements need. -/
def Closed (needs : α → Finset α) (kept : Finset α) : Prop := ∀ element ∈ kept, needs element ⊆ kept

/-- Choose a candidate with all it needs if that fits. -/
def visit (needs : α → Finset α) (budget : Nat) (kept : Finset α) (candidate : α) : Finset α :=
  if (kept ∪ needs candidate).card ≤ budget then kept ∪ needs candidate else kept

/-- Visit the candidates in order. -/
def select (needs : α → Finset α) (budget : Nat) (kept : Finset α) (candidates : List α) :
    Finset α :=
  candidates.foldl (visit needs budget) kept

theorem subset_visit (candidate : α) : kept ⊆ visit needs budget kept candidate := by
  unfold visit
  split
  · exact Finset.subset_union_left
  · exact Finset.Subset.refl kept

theorem visit_card_le (within : kept.card ≤ budget) (candidate : α) :
    (visit needs budget kept candidate).card ≤ budget := by
  unfold visit
  split
  next fits => exact fits
  next exceeds => exact within

theorem visit_closed (order : Needs needs) (closed : Closed needs kept) (candidate : α) :
    Closed needs (visit needs budget kept candidate) := by
  unfold visit
  split
  · intro element member
    rcases Finset.mem_union.mp member with old | new
    · exact (closed element old).trans Finset.subset_union_left
    · exact (order.trans candidate element new).trans Finset.subset_union_right
  · exact closed

theorem visit_subset (inside : kept ⊆ whole) (candidate : α) (within : needs candidate ⊆ whole) :
    visit needs budget kept candidate ⊆ whole := by
  unfold visit
  split
  · exact Finset.union_subset inside within
  · exact inside

theorem visit_of_full (full : budget ≤ kept.card) (candidate : α) :
    visit needs budget kept candidate = kept := by
  unfold visit
  split
  next fits => exact (Finset.eq_of_subset_of_card_le Finset.subset_union_left (fits.trans full)).symm
  next exceeds => rfl

theorem visit_of_mem (closed : Closed needs kept) {candidate : α} (member : candidate ∈ kept) :
    visit needs budget kept candidate = kept := by
  have chosen : kept ∪ needs candidate = kept :=
    Finset.union_eq_left.mpr (closed candidate member)
  simp [visit, chosen]

theorem subset_select (candidates : List α) (kept : Finset α) :
    kept ⊆ select needs budget kept candidates := by
  induction candidates generalizing kept with
  | nil => exact Finset.Subset.refl kept
  | cons candidate rest ih =>
    exact (subset_visit candidate).trans (ih _)

theorem select_card_le (candidates : List α) (within : kept.card ≤ budget) :
    (select needs budget kept candidates).card ≤ budget := by
  induction candidates generalizing kept with
  | nil => exact within
  | cons candidate rest ih =>
    exact ih (visit_card_le within candidate)

theorem select_closed (order : Needs needs) (candidates : List α) (closed : Closed needs kept) :
    Closed needs (select needs budget kept candidates) := by
  induction candidates generalizing kept with
  | nil => exact closed
  | cons candidate rest ih =>
    exact ih (visit_closed order closed candidate)

theorem select_subset (candidates : List α) (inside : kept ⊆ whole)
    (within : ∀ candidate ∈ candidates, needs candidate ⊆ whole) :
    select needs budget kept candidates ⊆ whole := by
  induction candidates generalizing kept with
  | nil => exact inside
  | cons candidate rest ih =>
    refine ih (visit_subset inside candidate (within _ List.mem_cons_self)) ?_
    exact fun other member => within other (List.mem_cons_of_mem candidate member)

theorem select_of_full (candidates : List α) (full : budget ≤ kept.card) :
    select needs budget kept candidates = kept := by
  induction candidates with
  | nil => rfl
  | cons candidate rest ih =>
    unfold select
    rw [List.foldl_cons, visit_of_full full]
    exact ih

/-- An element that is not chosen needs one that lacks nothing but itself. -/
theorem exists_lacking_itself (order : Needs needs) (kept : Finset α) {element : α}
    (missing : element ∉ kept) :
    ∃ first ∈ needs element, first ∉ kept ∧ needs first ⊆ insert first kept := by
  have some : (needs element \ kept).Nonempty :=
    ⟨element, Finset.mem_sdiff.mpr ⟨order.self element, missing⟩⟩
  obtain ⟨first, member, least⟩ :=
    Finset.exists_min_image (needs element \ kept) (fun other => (needs other).card) some
  obtain ⟨needed, unkept⟩ := Finset.mem_sdiff.mp member
  refine ⟨first, needed, unkept, fun other inNeeds => ?_⟩
  by_contra outside
  have notFirst : other ≠ first := fun same => outside (same ▸ Finset.mem_insert_self first kept)
  have otherUnkept : other ∉ kept := fun inKept => outside (Finset.mem_insert_of_mem inKept)
  have otherNeeded : other ∈ needs element := order.trans element first needed inNeeds
  have smaller : (needs other).card < (needs first).card := by
    apply Finset.card_lt_card
    refine ⟨order.trans first other inNeeds, fun back => notFirst ?_⟩
    exact (order.antisymm first other inNeeds (back (order.self first))).symm
  exact absurd (least other (Finset.mem_sdiff.mpr ⟨otherNeeded, otherUnkept⟩)) (by omega)

/-- A visited element that lacks nothing but itself in the end is chosen, if there is room. -/
theorem mem_select_of_lacking_itself {candidates : List α} {first : α}
    (visited : first ∈ candidates)
    (lacks : needs first ⊆ insert first (select needs budget kept candidates))
    (order : Needs needs) (room : (select needs budget kept candidates).card < budget) :
    first ∈ select needs budget kept candidates := by
  induction candidates generalizing kept with
  | nil => simp at visited
  | cons candidate rest ih =>
    rcases List.mem_cons.mp visited with rfl | later
    · -- When it was visited, everything but itself was chosen by the end.
      have below : kept ∪ needs first ⊆
          insert first (select needs budget kept (first :: rest)) := by
        refine Finset.union_subset ?_ lacks
        exact (subset_select (first :: rest) kept).trans (Finset.subset_insert _ _)
      have fits : (kept ∪ needs first).card ≤ budget :=
        (Finset.card_le_card below).trans ((Finset.card_insert_le _ _).trans room)
      apply subset_select rest (visit needs budget kept first)
      unfold visit
      rw [if_pos fits]
      exact Finset.mem_union_right kept (order.self first)
    · exact ih later lacks room

/-- Visiting everything chooses everything or fills the budget. -/
theorem select_card (order : Needs needs) {candidates : List α} (inside : kept ⊆ whole)
    (within : ∀ candidate ∈ candidates, needs candidate ⊆ whole)
    (covered : ∀ element ∈ whole, element ∈ candidates) (fits : kept.card ≤ budget) :
    (select needs budget kept candidates).card = min whole.card budget := by
  have bounded : (select needs budget kept candidates).card ≤ budget :=
    select_card_le candidates fits
  have chosen : select needs budget kept candidates ⊆ whole :=
    select_subset candidates inside within
  rcases Nat.lt_or_ge (select needs budget kept candidates).card budget with room | full
  · have all : select needs budget kept candidates = whole := by
      refine chosen.antisymm fun element member => ?_
      by_contra missing
      obtain ⟨first, needed, unkept, lacks⟩ := exists_lacking_itself order _ missing
      have inWhole : first ∈ whole := within element (covered element member) needed
      exact unkept (mem_select_of_lacking_itself (covered first inWhole) lacks order room)
    rw [all] at room ⊢
    omega
  · have := Finset.card_le_card chosen
    omega

/-- When each candidate comes after what it needs, the choice is what comes first. -/
theorem select_of_sorted (order : Needs needs) {candidates : List α} (distinct : candidates.Nodup)
    (sorted : ∀ before candidate after, candidates = before ++ candidate :: after →
      needs candidate ⊆ insert candidate before.toFinset) :
    select needs budget ∅ candidates = (candidates.take budget).toFinset := by
  have continued (rest : List α) : ∀ before, candidates = before ++ rest → before.length ≤ budget →
      select needs budget before.toFinset rest = (candidates.take budget).toFinset := by
    induction rest with
    | nil =>
      intro before cut short
      have all : candidates = before := cut.trans (List.append_nil before)
      rw [all, List.take_of_length_le short]
      rfl
    | cons candidate rest ih =>
      intro before cut short
      have size : before.toFinset.card = before.length :=
        List.toFinset_card_of_nodup (List.nodup_append.mp (cut ▸ distinct)).1
      rcases Nat.lt_or_ge before.length budget with room | full
      · have added : before.toFinset ∪ needs candidate = insert candidate before.toFinset := by
          refine (Finset.union_subset (Finset.subset_insert _ _)
            (sorted before candidate rest cut)).antisymm ?_
          refine Finset.insert_subset ?_ Finset.subset_union_left
          exact Finset.mem_union_right _ (order.self candidate)
        have fits : (insert candidate before.toFinset).card ≤ budget :=
          (Finset.card_insert_le _ _).trans (by omega)
        have chosen : visit needs budget before.toFinset candidate =
            (before ++ [candidate]).toFinset := by
          unfold visit
          rw [added, if_pos fits, List.toFinset_append, Finset.union_comm]
          rfl
        unfold select
        rw [List.foldl_cons, chosen]
        exact ih (before ++ [candidate]) (by simp [cut])
          (by rw [List.length_append, List.length_singleton]; exact room)
      · have exactly : before.length = budget := by omega
        rw [select_of_full (candidate :: rest) (by omega), cut, List.take_left' exactly]
  exact continued candidates [] rfl (Nat.zero_le budget)

omit [DecidableEq α] in
/-- Among candidates with falling values, the first few are those with few candidates above. -/
theorem mem_take_iff {β : Type v} [LinearOrder β] (value : α → β) {candidates : List α}
    (falling : candidates.Pairwise (fun first second => value second < value first))
    {element : α} (member : element ∈ candidates) (count : Nat) :
    element ∈ candidates.take count ↔
      (candidates.filter (fun other => decide (value element < value other))).length < count := by
  induction candidates generalizing count with
  | nil => simp at member
  | cons first rest ih =>
    obtain ⟨below, fallingRest⟩ := List.pairwise_cons.mp falling
    rcases List.mem_cons.mp member with rfl | later
    · have none : (element :: rest).filter (fun other => decide (value element < value other)) =
          [] := by
        refine List.filter_eq_nil_iff.mpr fun other inside => ?_
        rcases List.mem_cons.mp inside with rfl | inRest
        · simp
        · simpa using (below other inRest).le
      rw [none]
      cases count with
      | zero => simp
      | succ count => simp
    · have higher : value element < value first := below element later
      have proper : element ≠ first := fun same => absurd higher (same ▸ lt_irrefl _)
      rw [List.filter_cons_of_pos (by simpa using higher), List.length_cons]
      cases count with
      | zero => simp
      | succ count =>
        rw [List.take_succ_cons, List.mem_cons, or_iff_right proper,
          ih fallingRest later, Nat.succ_lt_succ_iff]

end SpecBlock.BudgetClosure
