import Mathlib.Data.List.Nodup
import Mathlib.Data.List.ProdSigma
import Mathlib.Data.List.Range

/-!
# Keys an attention sees

Attention is modelled by the keys a query sees: keys lie one after the other, and a mask
over their indices selects some. A key is named by the draft block, the position and the
slot that wrote it. A block's keys lie position by position, slot by slot.
-/

namespace SpecBlock.Draft

/-- The key that a slot of a position wrote in a draft block. -/
structure DraftKey where
  block : Nat
  position : Nat
  slot : Nat
  deriving DecidableEq, Repr

/-- Keys a mask over their indices selects. -/
def attended {α : Type} (keys : List α) (mask : Nat → Bool) : List α :=
  (keys.zipIdx.filter (fun entry => mask entry.2)).map Prod.fst

/-- Keys of one position. -/
def slotKeys (block position slots : Nat) : List DraftKey :=
  (List.range slots).map (fun slot => ⟨block, position, slot⟩)

/-- Keys of consecutive positions, from a first one. -/
def blockKeys (block first positions K : Nat) : List DraftKey :=
  (List.range positions).flatMap (fun offset => slotKeys block (first + offset) K)

section attended

variable {α : Type} (keys others : List α) (mask : Nat → Bool)

@[simp] theorem attended_nil : attended ([] : List α) mask = [] := rfl

theorem attended_append : attended (keys ++ others) mask =
    attended keys mask ++ attended others (fun index => mask (keys.length + index)) := by
  unfold attended
  rw [List.zipIdx_append, List.filter_append, List.map_append, Nat.zero_add]
  congr 1
  rw [List.zipIdx_eq_map_add, List.filter_map, List.map_map]
  rfl

theorem attended_map {β : Type} (change : α → β) :
    attended (keys.map change) mask = (attended keys mask).map change := by
  unfold attended
  rw [List.zipIdx_map, List.filter_map, List.map_map, List.map_map]
  rfl

theorem attended_congr {other : Nat → Bool}
    (agree : ∀ index, index < keys.length → mask index = other index) :
    attended keys mask = attended keys other := by
  unfold attended
  congr 1
  apply List.filter_congr
  rintro ⟨key, index⟩ member
  exact agree index (List.snd_lt_of_mem_zipIdx member)

theorem attended_open (isOpen : ∀ index, index < keys.length → mask index = true) :
    attended keys mask = keys := by
  rw [attended_congr keys mask isOpen]
  simp [attended]

theorem attended_shut (isShut : ∀ index, index < keys.length → mask index = false) :
    attended keys mask = [] := by
  rw [attended_congr keys mask isShut]
  simp [attended]

theorem attended_first (count : Nat) (within : count ≤ keys.length)
    (first : ∀ index, index < keys.length → mask index = decide (index < count)) :
    attended keys mask = keys.take count := by
  have split := attended_append (keys.take count) (keys.drop count) mask
  rw [List.take_append_drop] at split
  rw [split, attended_open, attended_shut, List.append_nil]
  · intro index inside
    rw [List.length_take, Nat.min_eq_left within]
    rw [List.length_drop] at inside
    rw [first _ (by omega)]
    simp
  · intro index inside
    rw [List.length_take, Nat.min_eq_left within] at inside
    rw [first index (by omega)]
    simpa using inside

end attended

@[simp] theorem slotKeys_length (block position slots : Nat) :
    (slotKeys block position slots).length = slots := by
  simp [slotKeys]

@[simp] theorem blockKeys_length (block first positions K : Nat) :
    (blockKeys block first positions K).length = positions * K := by
  simp [blockKeys, List.length_flatMap]

theorem slotKeys_take (block position slots count : Nat) (within : count ≤ slots) :
    (slotKeys block position slots).take count = slotKeys block position count := by
  rw [slotKeys, ← List.map_take, List.take_range, Nat.min_eq_left within]
  rfl

theorem blockKeys_add (block first left right K : Nat) :
    blockKeys block first (left + right) K =
      blockKeys block first left K ++ blockKeys block (first + left) right K := by
  simp only [blockKeys, List.range_add, List.flatMap_append, List.flatMap_map, Nat.add_assoc]

theorem blockKeys_one (block first K : Nat) : blockKeys block first 1 K = slotKeys block first K := by
  simp [blockKeys]

/-- The keys before a position, those at it, and those behind. -/
theorem blockKeys_split (block first positions offset K : Nat) (inside : offset < positions) :
    blockKeys block first positions K = blockKeys block first offset K ++
      slotKeys block (first + offset) K ++
      blockKeys block (first + offset + 1) (positions - offset - 1) K := by
  have whole : positions = offset + (1 + (positions - offset - 1)) := by omega
  conv_lhs => rw [whole, blockKeys_add, blockKeys_add, blockKeys_one]
  rw [List.append_assoc]

theorem mem_blockKeys {block first positions K : Nat} {key : DraftKey} :
    key ∈ blockKeys block first positions K ↔
      key.block = block ∧ first ≤ key.position ∧ key.position < first + positions ∧ key.slot < K := by
  obtain ⟨keyBlock, position, slot⟩ := key
  simp only [blockKeys, slotKeys, List.mem_flatMap, List.mem_map, List.mem_range, DraftKey.mk.injEq]
  constructor
  · rintro ⟨offset, inside, other, small, rfl, rfl, rfl⟩
    exact ⟨rfl, by omega, by omega, small⟩
  · rintro ⟨rfl, above, below, small⟩
    exact ⟨position - first, by omega, slot, small, rfl, by omega, rfl⟩

theorem slotKeys_nodup (block position slots : Nat) : (slotKeys block position slots).Nodup := by
  refine List.nodup_range.map ?_
  intro left right same
  exact (DraftKey.mk.inj same).2.2

theorem blockKeys_nodup (block first positions K : Nat) :
    (blockKeys block first positions K).Nodup := by
  induction positions with
  | zero => exact List.nodup_nil
  | succ positions ih =>
    rw [blockKeys_add, blockKeys_one, List.nodup_append]
    refine ⟨ih, slotKeys_nodup _ _ _, ?_⟩
    intro earlier member last atEnd same
    have below := (mem_blockKeys.mp member).2.2.1
    rw [← blockKeys_one] at atEnd
    have above := (mem_blockKeys.mp atEnd).2.1
    rw [same] at below
    omega

/-- A mask that treats all positions before one alike, opens the first slots there and is shut
behind it. -/
theorem attended_blockKeys {block first positions K offset count : Nat} {mask : Nat → Bool}
    (earlier : Bool) (inside : offset < positions) (slots : count ≤ K)
    (before : ∀ index, index / K < offset → mask index = earlier)
    (here : ∀ index, index / K = offset → index % K < K →
      mask index = decide (index % K < count))
    (after : ∀ index, offset < index / K → mask index = false) :
    attended (blockKeys block first positions K) mask =
      (if earlier then blockKeys block first offset K else []) ++
        slotKeys block (first + offset) count := by
  rcases Nat.eq_zero_or_pos K with rfl | positive
  · obtain rfl : count = 0 := Nat.le_zero.mp slots
    have none (size : Nat) : blockKeys block first size 0 = [] :=
      List.eq_nil_of_length_eq_zero (by simp)
    simp [none, slotKeys]
  rw [blockKeys_split block first positions offset K inside, attended_append, attended_append,
    blockKeys_length]
  have earlierPart : attended (blockKeys block first offset K) mask =
      if earlier then blockKeys block first offset K else [] := by
    have alike (index : Nat) (low : index < (blockKeys block first offset K).length) :
        mask index = earlier := by
      rw [blockKeys_length] at low
      exact before index ((Nat.div_lt_iff_lt_mul positive).mpr low)
    cases earlier with
    | true => exact attended_open _ _ alike
    | false => exact attended_shut _ _ alike
  have herePart : attended (slotKeys block (first + offset) K)
      (fun index => mask (offset * K + index)) = slotKeys block (first + offset) count := by
    rw [attended_first _ _ count (by simpa using slots), slotKeys_take _ _ _ _ slots]
    intro slot small
    rw [slotKeys_length] at small
    have quotient : (offset * K + slot) / K = offset := by
      rw [Nat.mul_comm, Nat.mul_add_div positive, Nat.div_eq_of_lt small, Nat.add_zero]
    have remainder : (offset * K + slot) % K = slot := by
      rw [Nat.mul_comm, Nat.mul_add_mod, Nat.mod_eq_of_lt small]
    rw [here _ quotient (Nat.mod_lt _ positive), remainder]
  rw [earlierPart, herePart, attended_shut, List.append_nil]
  intro index _
  apply after
  rw [List.length_append, blockKeys_length, slotKeys_length]
  have low : offset + 1 ≤ (offset * K + K + index) / K := by
    rw [Nat.le_div_iff_mul_le positive, Nat.succ_mul]
    omega
  omega

end SpecBlock.Draft
