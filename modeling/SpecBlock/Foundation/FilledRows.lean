import Mathlib.Data.List.Flatten
import Mathlib.Data.List.Perm.Basic
import SpecBlock.Foundation.Segments
import SpecBlock.Foundation.Stores

/-!
# Rows of a batch filled by one launch

A batch lies in memory as rows of one stride. A launch fills the rows when its stores are, in some
order, the entries of a list for each row, one behind the other from a start in the row. As long as
the lists fit their rows, every outcome of the launch has them there, no place is stored at twice,
and nothing is stored elsewhere.
-/

namespace SpecBlock.FilledRows
open Segments Stores

universe u
variable {β : Type u}

/-- The entries of a list with the places they are stored at. -/
def placed (start : Nat) (entries : List β) : List (Nat × β) :=
  (entries.zipIdx start).map Prod.swap

/-- Stores that are the entries of a list for each row of a batch. -/
def Fills (B stride : Nat) (start : Nat → Nat) (entries : Nat → List β) (stores : List (Nat × β)) :
    Prop :=
  stores.Perm ((List.range B).flatMap (fun b => placed (b * stride + start b) (entries b)))

/-- What a launch that fills the rows leaves: in every outcome each row has its entries, every place
of theirs is stored at once, and no other place is. -/
structure WrittenRows (B stride : Nat) (start : Nat → Nat) (entries : Nat → List β)
    (stores : List (Nat × β)) : Prop where
  values : ∀ {memory result : Nat → β}, Outcome memory stores result → ∀ b < B,
    ∀ {index : Nat} {entry : β}, (entries b)[index]? = some entry →
      result (b * stride + start b + index) = entry
  once : (stores.map Prod.fst).Nodup
  covered : ∀ b < B, ∀ index < (entries b).length,
    b * stride + start b + index ∈ stores.map Prod.fst
  only : ∀ store ∈ stores, ∃ b < B, ∃ index < (entries b).length,
    store.1 = b * stride + start b + index

/-- Lists that fit the rows of a batch, with what lies before them. -/
def FitsRows (B stride : Nat) (start : Nat → Nat) (entries : Nat → List β) : Prop :=
  ∀ b < B, start b + (entries b).length ≤ stride

variable {B stride start place : Nat} {starts : Nat → Nat} {rest first second : List β}
  {entries more : Nat → List β} {stores others : List (Nat × β)}

@[simp] theorem placed_nil (start : Nat) : placed start ([] : List β) = [] := rfl

theorem placed_append (start : Nat) (first second : List β) :
    placed start (first ++ second) = placed start first ++ placed (start + first.length) second := by
  rw [placed, List.zipIdx_append, List.map_append]
  rfl

theorem mem_placed {store : Nat × β} : store ∈ placed start rest ↔
    ∃ index, rest[index]? = some store.2 ∧ store.1 = start + index := by
  obtain ⟨place, value⟩ := store
  simp only [placed, List.mem_map, Prod.exists, Prod.swap_prod_mk, Prod.mk.injEq]
  constructor
  · rintro ⟨entry, here, member, rfl, rfl⟩
    have listed := List.mem_zipIdx_iff_le_and_getElem?_sub.mp member
    exact ⟨_, listed.2, by omega⟩
  · rintro ⟨index, listed, rfl⟩
    refine ⟨value, start + index, ?_, rfl, rfl⟩
    exact List.mem_zipIdx_iff_le_and_getElem?_sub.mpr ⟨Nat.le_add_right _ _, by
      rwa [Nat.add_sub_cancel_left]⟩

theorem placed_places (start : Nat) (entries : List β) :
    (placed start entries).map Prod.fst = List.range' start entries.length := by
  rw [placed, List.map_map]
  exact List.zipIdx_map_snd start entries

theorem placed_spread (start : Nat) (sizes : Nat → Nat) (segments : Nat) (item : Nat → Nat → β) :
    placed start (spread sizes segments item) = spread sizes segments (fun segment index =>
      (start + (before sizes segment + index), item segment index)) := by
  rw [placed, List.zipIdx_eq_map_add, zipIdx_spread, map_spread, map_spread]
  exact spread_congr (fun _ _ => rfl) (fun segment _ index _ => rfl)

theorem placed_range (start count : Nat) (item : Nat → β) :
    placed start ((List.range count).map item) =
      (List.range count).map (fun index => (start + index, item index)) := by
  have row := placed_spread start (fun _ => count) 1 (fun _ index => item index)
  simpa [spread] using row

theorem placed_flatMap (start count : Nat) (part : Nat → List β) :
    placed start ((List.range count).flatMap part) = (List.range count).flatMap (fun index =>
      placed (start + before (fun index => (part index).length) index) (part index)) := by
  have length : ∀ count, ((List.range count).flatMap part).length =
      before (fun index => (part index).length) count := by
    intro count
    induction count with
    | zero => rfl
    | succ count ih => simp [List.range_succ, ih]
  induction count with
  | zero => rfl
  | succ count ih =>
    rw [List.range_succ, List.flatMap_append, placed_append, ih, length,
      List.flatMap_append, List.flatMap_singleton, List.flatMap_singleton]

/-- Two launches that fill the rows one behind the other fill them together. -/
theorem Fills.append (filled : Fills B stride starts entries stores)
    (further : Fills B stride (fun b => starts b + (entries b).length) more others) :
    Fills B stride starts (fun b => entries b ++ more b) (stores ++ others) := by
  refine (List.Perm.append filled further).trans ?_
  refine (List.flatMap_append_perm _ _ _).trans (List.Perm.of_eq ?_)
  refine List.flatMap_congr (fun b _ => ?_)
  rw [placed_append, Nat.add_assoc]

theorem row_inj {b b' place place' : Nat} (inside : place < stride) (inside' : place' < stride)
    (same : b * stride + place = b' * stride + place') : b = b' ∧ place = place' :=
  address_inj inside inside' same

theorem Fills.mem (filled : Fills B stride starts entries stores) {store : Nat × β} :
    store ∈ stores ↔ ∃ b < B, ∃ index, (entries b)[index]? = some store.2 ∧
      store.1 = b * stride + starts b + index := by
  rw [filled.mem_iff, List.mem_flatMap]
  simp only [mem_placed, List.mem_range]

/-- Rows that the lists fit are filled without a place stored at twice. -/
theorem Fills.nodup (filled : Fills B stride starts entries stores)
    (room : FitsRows B stride starts entries) : (stores.map Prod.fst).Nodup := by
  have places : (stores.map Prod.fst).Perm ((List.range B).flatMap (fun b =>
      List.range' (b * stride + starts b) (entries b).length)) := by
    refine (filled.map Prod.fst).trans (List.Perm.of_eq ?_)
    rw [List.map_flatMap]
    exact List.flatMap_congr (fun b _ => placed_places _ _)
  rw [places.nodup_iff, List.nodup_flatMap]
  constructor
  · intro b _
    exact List.nodup_range'
  · refine List.nodup_range.pairwise_of_forall_ne ?_
    intro b member b' member' different place here here'
    have low := List.mem_range'_1.mp here
    have low' := List.mem_range'_1.mp here'
    have fits := room b (List.mem_range.mp member)
    have fits' := room b' (List.mem_range.mp member')
    obtain ⟨offset, rfl⟩ := Nat.exists_eq_add_of_le ((Nat.le_add_right _ _).trans low.1)
    obtain ⟨offset', same⟩ := Nat.exists_eq_add_of_le ((Nat.le_add_right _ _).trans low'.1)
    exact different (row_inj (by omega) (by omega) same).1

/-- A launch that fills rows the lists fit leaves them written. -/
theorem Fills.written (filled : Fills B stride starts entries stores)
    (room : FitsRows B stride starts entries) :
    WrittenRows B stride starts entries stores := by
  have once := filled.nodup room
  constructor
  · intro memory result outcome b low index entry listed
    have stored : (b * stride + starts b + index, entry) ∈ stores :=
      filled.mem.mpr ⟨b, low, index, listed, rfl⟩
    refine outcome.agreed stored (fun other member here => ?_)
    exact congrArg Prod.snd (List.inj_on_of_nodup_map once member stored here)
  · exact once
  · intro b low index inside
    refine List.mem_map.mpr ⟨(b * stride + starts b + index, (entries b)[index]), ?_, rfl⟩
    exact filled.mem.mpr ⟨b, low, index, List.getElem?_eq_getElem inside, rfl⟩
  · intro store member
    obtain ⟨b, low, index, listed, here⟩ := filled.mem.mp member
    obtain ⟨inside, _⟩ := List.getElem?_eq_some_iff.mp listed
    exact ⟨b, low, index, inside, here⟩

end SpecBlock.FilledRows
