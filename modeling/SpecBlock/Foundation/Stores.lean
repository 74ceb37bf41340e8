import Mathlib.Data.List.Basic
import Mathlib.Data.List.Induction
import Mathlib.Data.List.Nodup
import Mathlib.Data.List.Perm.Basic
import Mathlib.Logic.Function.Basic

/-!
# Stores in no particular order

The programs of a launched kernel, or the lanes of a scatter, store values in memory in
an order nobody promises. A memory is an outcome of a list of stores when some order of
them leads to it. An address that all its stores agree on has that value in every outcome,
and one that two stores disagree on has outcomes with either.

Rows of a tensor lie in memory one after the other.
-/

namespace SpecBlock.Stores

universe u v
variable {α : Type u} {β : Type v} [DecidableEq α]

/-- Store values one after the other. -/
def store (memory : α → β) (stores : List (α × β)) : α → β :=
  stores.foldl (fun written entry => Function.update written entry.1 entry.2) memory

/-- A memory that some order of the stores leads to. -/
def Outcome (memory : α → β) (stores : List (α × β)) (result : α → β) : Prop :=
  ∃ order : List (α × β), order.Perm stores ∧ store memory order = result

variable {memory result : α → β} {stores : List (α × β)} {address : α} {value : β}

theorem store_frame (memory : α → β) (stores : List (α × β)) (address : α)
    (untouched : ∀ entry ∈ stores, entry.1 ≠ address) :
    store memory stores address = memory address := by
  unfold store
  induction stores generalizing memory with
  | nil => rfl
  | cons entry stores ih =>
    rw [List.foldl_cons, ih _
      (fun other member => untouched other (List.mem_cons_of_mem _ member))]
    exact Function.update_of_ne (untouched entry List.mem_cons_self).symm _ _

theorem store_append_last (memory : α → β) (stores : List (α × β)) (address : α) (value : β) :
    store memory (stores ++ [(address, value)]) address = value := by
  simp [store, List.foldl_append]

/-- An address that its stores agree on has the value they agree on. -/
theorem store_value (memory : α → β) (stores : List (α × β)) (address : α) (value : β)
    (stored : (address, value) ∈ stores)
    (agreed : ∀ entry ∈ stores, entry.1 = address → entry.2 = value) :
    store memory stores address = value := by
  induction stores using List.reverseRecOn with
  | nil => simp at stored
  | append_singleton earlier last ih =>
    by_cases here : last.1 = address
    · obtain ⟨place, content⟩ := last
      obtain rfl : place = address := here
      obtain rfl : content = value := agreed (place, content) (by simp) rfl
      exact store_append_last memory earlier place content
    · have before : (address, value) ∈ earlier := by
        rcases List.mem_append.mp stored with before | isLast
        · exact before
        · obtain rfl := List.mem_singleton.mp isLast
          exact absurd rfl here
      have kept : store memory (earlier ++ [last]) address = store memory earlier address := by
        simp [store, List.foldl_append, Function.update_of_ne (Ne.symm here)]
      rw [kept]
      exact ih before
        (fun entry member => agreed entry (List.mem_append_left _ member))

/-- Storing a value everywhere leaves the cells that have it. -/
theorem store_same (memory : α → β) (stores : List (α × β)) (address : α)
    (alike : ∀ entry ∈ stores, entry.2 = value) (already : memory address = value) :
    store memory stores address = value := by
  by_cases stored : ∃ entry ∈ stores, entry.1 = address
  · obtain ⟨⟨place, content⟩, member, here⟩ := stored
    obtain rfl : place = address := here
    obtain rfl : content = value := alike _ member
    exact store_value memory stores place content member fun entry listed _ => alike entry listed
  · rw [store_frame memory stores address fun entry member here => stored ⟨entry, member, here⟩]
    exact already

theorem Outcome.listed (memory : α → β) (stores : List (α × β)) :
    Outcome memory stores (store memory stores) :=
  ⟨stores, List.Perm.refl _, rfl⟩

/-- An address nothing is stored at keeps its value in every outcome. -/
theorem Outcome.frame (outcome : Outcome memory stores result)
    (untouched : ∀ entry ∈ stores, entry.1 ≠ address) : result address = memory address := by
  obtain ⟨order, same, rfl⟩ := outcome
  exact store_frame memory order address (fun entry member => untouched entry (same.subset member))

/-- An address that its stores agree on has their value in every outcome. -/
theorem Outcome.agreed (outcome : Outcome memory stores result)
    (stored : (address, value) ∈ stores)
    (same : ∀ entry ∈ stores, entry.1 = address → entry.2 = value) : result address = value := by
  obtain ⟨order, reordered, rfl⟩ := outcome
  exact store_value memory order address value (reordered.symm.subset stored)
    (fun entry member => same entry (reordered.subset member))

theorem Outcome.possible (memory : α → β) (stored : (address, value) ∈ stores) :
    ∃ result, Outcome memory stores result ∧ result address = value := by
  obtain ⟨before, after, rfl⟩ := List.append_of_mem stored
  refine ⟨_, ⟨before ++ after ++ [(address, value)], ?_, rfl⟩, ?_⟩
  · rw [List.append_assoc]
    exact (List.perm_append_comm.append_left before).trans (by simp)
  · exact store_append_last memory (before ++ after) address value

/-- Stores to distinct places lead to one memory, in whichever order. -/
theorem Outcome.determined {result' : α → β} {others : List (α × β)}
    (distinct : (stores.map Prod.fst).Nodup) (same : others.Perm stores)
    (outcome : Outcome memory stores result) (outcome' : Outcome memory others result') :
    result = result' := by
  funext address
  by_cases stored : address ∈ stores.map Prod.fst
  · obtain ⟨⟨place, value⟩, member, rfl⟩ := List.mem_map.mp stored
    have agreed : ∀ entry ∈ stores, entry.1 = place → entry.2 = value := by
      intro entry listed here
      have equal := List.inj_on_of_nodup_map distinct listed member here
      rw [equal]
    rw [outcome.agreed member agreed, outcome'.agreed (same.symm.subset member)
      (fun entry listed here => agreed entry (same.subset listed) here)]
  · have untouched : ∀ entry ∈ stores, entry.1 ≠ address := by
      intro entry listed here
      exact stored (here ▸ List.mem_map_of_mem listed)
    rw [outcome.frame untouched, outcome'.frame (fun entry listed =>
      untouched entry (same.subset listed))]

/-- Stores that agree at every address lead to one memory, in whichever order. -/
theorem Outcome.unique {result' : α → β}
    (alike : ∀ entry ∈ stores, ∀ other ∈ stores, other.1 = entry.1 → other.2 = entry.2)
    (outcome : Outcome memory stores result) (outcome' : Outcome memory stores result') :
    result = result' := by
  funext address
  by_cases stored : ∃ entry ∈ stores, entry.1 = address
  · obtain ⟨⟨place, value⟩, member, here⟩ := stored
    obtain rfl : place = address := here
    rw [outcome.agreed member (alike _ member), outcome'.agreed member (alike _ member)]
  · have untouched : ∀ entry ∈ stores, entry.1 ≠ address :=
      fun entry member here => stored ⟨entry, member, here⟩
    rw [outcome.frame untouched, outcome'.frame untouched]

/-- Two launches one after the other are one order of all their stores. -/
theorem Outcome.append {middle : α → β} {others : List (α × β)}
    (outcome : Outcome memory stores middle) (further : Outcome middle others result) :
    Outcome memory (stores ++ others) result := by
  obtain ⟨order, same, rfl⟩ := outcome
  obtain ⟨order', same', rfl⟩ := further
  exact ⟨order ++ order', same.append same', by rw [store, List.foldl_append]; rfl⟩

section places

variable {places : List α} {values : List β}

theorem Outcome.zip_eq (outcome : Outcome memory (places.zip values) result)
    (distinct : places.Nodup) (paired : places.length = values.length) :
    places.map result = values := by
  apply List.ext_getElem (by simpa using paired)
  intro index low high
  have inside : index < places.length := by simpa using low
  rw [List.getElem_map]
  apply outcome.agreed
  · exact List.mem_iff_getElem.mpr ⟨index, by simp; omega, List.getElem_zip⟩
  · intro entry member here
    obtain ⟨other, within, rfl⟩ := List.mem_iff_getElem.mp member
    rw [List.getElem_zip] at here ⊢
    obtain rfl := (List.Nodup.getElem_inj_iff distinct).mp here
    rfl

theorem Outcome.zip_frame (outcome : Outcome memory (places.zip values) result)
    (other : address ∉ places) : result address = memory address :=
  outcome.frame (fun _ member here => other (here ▸ (List.of_mem_zip member).1))

end places

section rows

variable {tile : List (Nat × β)} {rows width : Nat} {cell : Nat → Nat → β}

/-- Stores that write every cell of a tensor of rows its own value, and nothing else. -/
structure Tiled (tile : List (Nat × β)) (rows width : Nat) (cell : Nat → Nat → β) : Prop where
  covered : ∀ row column, row < rows → column < width →
    (row * width + column, cell row column) ∈ tile
  only : ∀ entry ∈ tile, ∃ row column, column < width ∧
    entry = (row * width + column, cell row column)

/-- The rows of a tensor in memory. -/
def view (rows width : Nat) (memory : Nat → β) : List (List β) :=
  (List.range rows).map (fun row => (List.range width).map (fun column =>
    memory (row * width + column)))

theorem address_div {row column : Nat} (inside : column < width) :
    (row * width + column) / width = row := by
  rw [Nat.mul_comm, Nat.mul_add_div (by omega), Nat.div_eq_of_lt inside, Nat.add_zero]

theorem address_mod {row column : Nat} (inside : column < width) :
    (row * width + column) % width = column := by
  rw [Nat.mul_comm, Nat.mul_add_mod, Nat.mod_eq_of_lt inside]

theorem address_lt {row column : Nat} (rowInside : row < rows) (inside : column < width) :
    row * width + column < rows * width := by
  have whole : (row + 1) * width ≤ rows * width := Nat.mul_le_mul_right width rowInside
  rw [Nat.succ_mul] at whole
  omega

theorem address_inj {row column row' column' : Nat} (inside : column < width)
    (inside' : column' < width) (same : row * width + column = row' * width + column') :
    row = row' ∧ column = column' := by
  have rowsSame : row = row' := by
    have quotient : (row * width + column) / width = row := address_div inside
    rw [← quotient, same, address_div inside']
  subst rowsSame
  exact ⟨rfl, by omega⟩

/-- Every outcome of such stores has each cell's value at its address. -/
theorem Outcome.cell_eq {memory result : Nat → β} (outcome : Outcome memory tile result)
    (tiled : Tiled tile rows width cell) {row column : Nat} (rowInside : row < rows)
    (inside : column < width) : result (row * width + column) = cell row column := by
  apply outcome.agreed (tiled.covered row column rowInside inside)
  intro entry member here
  obtain ⟨otherRow, otherColumn, otherInside, rfl⟩ := tiled.only entry member
  obtain ⟨rfl, rfl⟩ := address_inj otherInside inside here
  rfl

theorem Outcome.view_eq {memory result : Nat → β} (outcome : Outcome memory tile result)
    (tiled : Tiled tile rows width cell) :
    view rows width result =
      (List.range rows).map (fun row => (List.range width).map (cell row)) := by
  apply List.map_congr_left
  intro row rowMember
  apply List.map_congr_left
  intro column columnMember
  exact outcome.cell_eq tiled (List.mem_range.mp rowMember) (List.mem_range.mp columnMember)

end rows

end SpecBlock.Stores
