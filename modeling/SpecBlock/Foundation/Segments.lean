import Mathlib.Algebra.Ring.Nat
import Mathlib.Data.List.Flatten
import Mathlib.Data.List.Nodup
import Mathlib.Data.List.Range

/-!
# Segments placed by a prefix sum

Items come in segments of different sizes. A segment's items lie one after the other, behind
those of the earlier segments: its offset is the exclusive prefix sum of the sizes. The places
of all items are then consecutive, so that no two items share one and none is left out.

A padded tile has a row of equal width for every segment, of which the first lanes are in use. The
lanes in use are the items, and the number of those before one is its place.
-/

namespace SpecBlock.Segments

universe u v
variable {α : Type u} {β : Type v}

/-- Items before a segment. -/
def before (sizes : Nat → Nat) : Nat → Nat
  | 0 => 0
  | segment + 1 => before sizes segment + sizes segment

/-- Items of the first segments, one segment after the other. -/
def spread (sizes : Nat → Nat) (segments : Nat) (item : Nat → Nat → α) : List α :=
  (List.range segments).flatMap (fun segment => (List.range (sizes segment)).map (item segment))

variable {sizes : Nat → Nat} {item : Nat → Nat → α}

@[simp] theorem before_zero (sizes : Nat → Nat) : before sizes 0 = 0 := rfl

@[simp] theorem before_succ (sizes : Nat → Nat) (segment : Nat) :
    before sizes (segment + 1) = before sizes segment + sizes segment := rfl

@[simp] theorem spread_zero (sizes : Nat → Nat) (item : Nat → Nat → α) : spread sizes 0 item = [] :=
  rfl

theorem spread_succ (sizes : Nat → Nat) (segments : Nat) (item : Nat → Nat → α) :
    spread sizes (segments + 1) item =
      spread sizes segments item ++ (List.range (sizes segments)).map (item segments) := by
  simp [spread, List.range_succ]

theorem before_mono (sizes : Nat → Nat) {first second : Nat} (earlier : first ≤ second) :
    before sizes first ≤ before sizes second := by
  induction second with
  | zero =>
    obtain rfl := Nat.le_zero.mp earlier
    exact Nat.le_refl _
  | succ second ih =>
    rcases Nat.lt_or_ge first (second + 1) with low | high
    · exact (ih (Nat.le_of_lt_succ low)).trans (Nat.le_add_right _ _)
    · obtain rfl := Nat.le_antisymm earlier high
      exact Nat.le_refl _

theorem before_const (size segments : Nat) : before (fun _ => size) segments = segments * size := by
  induction segments with
  | zero => simp
  | succ segments ih => rw [before_succ, ih, Nat.succ_mul]

theorem before_le (sizes : Nat → Nat) (bound segments : Nat)
    (bounded : ∀ segment < segments, sizes segment ≤ bound) :
    before sizes segments ≤ segments * bound := by
  induction segments with
  | zero => simp
  | succ segments ih =>
    have earlier := ih (fun segment low => bounded segment (Nat.lt_succ_of_lt low))
    have last := bounded segments (Nat.lt_succ_self segments)
    rw [before_succ, Nat.succ_mul]
    omega

/-- Sizes that agree on the segments have the same offsets. -/
theorem before_congr {other : Nat → Nat} {segments : Nat}
    (same : ∀ segment < segments, sizes segment = other segment) :
    before sizes segments = before other segments := by
  induction segments with
  | zero => rfl
  | succ segments ih =>
    rw [before_succ, before_succ, same segments (Nat.lt_succ_self segments),
      ih (fun segment low => same segment (Nat.lt_succ_of_lt low))]

/-- There are as many items as the offset behind the last segment. -/
@[simp] theorem spread_length (sizes : Nat → Nat) (segments : Nat) (item : Nat → Nat → α) :
    (spread sizes segments item).length = before sizes segments := by
  induction segments with
  | zero => rfl
  | succ segments ih => simp [spread_succ, ih]

theorem map_spread (change : α → β) (sizes : Nat → Nat) (segments : Nat) (item : Nat → Nat → α) :
    (spread sizes segments item).map change =
      spread sizes segments (fun segment index => change (item segment index)) := by
  simp [spread, List.map_flatMap, Function.comp_def]

theorem spread_places (sizes : Nat → Nat) (segments : Nat) :
    spread sizes segments (fun segment index => before sizes segment + index) =
      List.range (before sizes segments) := by
  induction segments with
  | zero => rfl
  | succ segments ih =>
    rw [spread_succ, ih, before_succ, List.range_add]

theorem mem_spread {segments : Nat} {value : α} :
    value ∈ spread sizes segments item ↔
      ∃ segment index, segment < segments ∧ index < sizes segment ∧ item segment index = value := by
  simp [spread]

theorem spread_getElem? {segments segment index : Nat} (inside : segment < segments)
    (within : index < sizes segment) (item : Nat → Nat → α) :
    (spread sizes segments item)[before sizes segment + index]? = some (item segment index) := by
  induction segments with
  | zero => exact absurd inside (Nat.not_lt_zero _)
  | succ segments ih =>
    rw [spread_succ]
    rcases Nat.lt_or_ge segment segments with low | high
    · have room := before_mono sizes (Nat.succ_le_of_lt low)
      rw [before_succ] at room
      rw [List.getElem?_append_left (by rw [spread_length]; omega), ih low]
    · obtain rfl : segment = segments := by omega
      rw [List.getElem?_append_right (by rw [spread_length]; omega), spread_length,
        Nat.add_sub_cancel_left, List.getElem?_map, List.getElem?_range within, Option.map_some]

/-- Offsets behind some of the segments are offsets of the others. -/
theorem before_add (sizes : Nat → Nat) (first second : Nat) :
    before sizes (first + second) =
      before sizes first + before (fun segment => sizes (first + segment)) second := by
  induction second with
  | zero => rfl
  | succ second ih =>
    rw [← Nat.add_assoc, before_succ, before_succ, ih, Nat.add_assoc]

theorem before_inj {first second index index' : Nat} (inside : index < sizes first)
    (inside' : index' < sizes second)
    (same : before sizes first + index = before sizes second + index') :
    first = second ∧ index = index' := by
  rcases Nat.lt_trichotomy first second with earlier | rfl | later
  · have behind := before_mono sizes (Nat.succ_le_of_lt earlier)
    rw [before_succ] at behind
    omega
  · exact ⟨rfl, by omega⟩
  · have behind := before_mono sizes (Nat.succ_le_of_lt later)
    rw [before_succ] at behind
    omega

theorem before_eq_iff (sizes : Nat → Nat) {first second : Nat} (earlier : first ≤ second) :
    before sizes first = before sizes second ↔
      ∀ segment, first ≤ segment → segment < second → sizes segment = 0 := by
  induction second with
  | zero =>
    obtain rfl := Nat.le_zero.mp earlier
    exact ⟨fun _ segment _ low => absurd low (Nat.not_lt_zero _), fun _ => rfl⟩
  | succ second ih =>
    rcases Nat.eq_or_lt_of_le earlier with rfl | room
    · exact ⟨fun _ segment high low => absurd low (by omega), fun _ => rfl⟩
    · have within := Nat.le_of_lt_succ room
      have rises := before_mono sizes within
      rw [before_succ]
      constructor
      · intro level segment high low
        rcases Nat.lt_succ_iff_lt_or_eq.mp low with inner | rfl
        · exact (ih within).mp (by omega) segment high inner
        · omega
      · intro empty
        rw [(ih within).mpr (fun segment high low =>
          empty segment high (Nat.lt_succ_of_lt low)), empty second within (Nat.lt_succ_self second),
          Nat.add_zero]

theorem spread_congr {other : Nat → Nat} {item' : Nat → Nat → α} {segments : Nat}
    (sameSizes : ∀ segment < segments, sizes segment = other segment)
    (sameItems : ∀ segment < segments, ∀ index < sizes segment,
      item segment index = item' segment index) :
    spread sizes segments item = spread other segments item' := by
  induction segments with
  | zero => rfl
  | succ segments ih =>
    rw [spread_succ, spread_succ, ih
      (fun segment low => sameSizes segment (Nat.lt_succ_of_lt low))
      (fun segment low => sameItems segment (Nat.lt_succ_of_lt low)),
      ← sameSizes segments (Nat.lt_succ_self segments)]
    congr 1
    refine List.map_congr_left (fun index member => ?_)
    exact sameItems segments (Nat.lt_succ_self segments) index (List.mem_range.mp member)

theorem filter_spread (keep : Nat → Bool) (segments : Nat) :
    (List.range segments).filter keep =
      spread (fun segment => (keep segment).toNat) segments (fun segment _ => segment) := by
  induction segments with
  | zero => rfl
  | succ segments ih =>
    rw [List.range_succ, List.filter_append, ih, spread_succ]
    cases kept : keep segments with
    | false => simp [kept]
    | true => simp [kept]

theorem zipIdx_spread (sizes : Nat → Nat) (segments : Nat) (item : Nat → Nat → α) :
    (spread sizes segments item).zipIdx = spread sizes segments (fun segment index =>
      (item segment index, before sizes segment + index)) := by
  induction segments with
  | zero => rfl
  | succ segments ih =>
    rw [spread_succ, spread_succ, List.zipIdx_append, ih, spread_length]
    congr 1
    apply List.ext_getElem (by simp)
    intro index low high
    simp

section padded

variable {width : Nat} {counts : Nat → Nat}

theorem filter_row {count : Nat} (fits : count ≤ width) :
    (List.range width).filter (fun index => decide (index < count)) = List.range count := by
  induction width with
  | zero =>
    obtain rfl := Nat.le_zero.mp fits
    rfl
  | succ width ih =>
    rw [List.range_succ, List.filter_append]
    rcases Nat.lt_or_ge width count with full | room
    · obtain rfl : count = width + 1 := by omega
      have all : (List.range width).filter (fun index => decide (index < width + 1)) =
          List.range width := by
        refine List.filter_eq_self.mpr (fun index member => decide_eq_true ?_)
        exact Nat.lt_succ_of_lt (List.mem_range.mp member)
      rw [all, List.range_succ]
      simp
    · rw [ih room]
      simp [Nat.not_lt.mpr room]

theorem before_row (count index : Nat) :
    before (fun lane => if lane < count then 1 else 0) index = min index count := by
  induction index with
  | zero => simp
  | succ index ih =>
    rw [before_succ, ih]
    split <;> omega

theorem filter_tile (segments : Nat) (fits : ∀ segment < segments, counts segment ≤ width) :
    (List.range (segments * width)).filter (fun lane => decide (lane % width < counts (lane / width))) =
      spread counts segments (fun segment index => segment * width + index) := by
  induction segments with
  | zero => simp
  | succ segments ih =>
    have last := fits segments (Nat.lt_succ_self segments)
    have row : ((List.range width).map (fun index => segments * width + index)).filter
        (fun lane => decide (lane % width < counts (lane / width))) =
        (List.range (counts segments)).map (fun index => segments * width + index) := by
      rw [List.filter_map, ← filter_row last]
      congr 1
      refine List.filter_congr (fun index member => ?_)
      have inside := List.mem_range.mp member
      rw [Function.comp_apply, Nat.mul_comm, Nat.mul_add_mod, Nat.mod_eq_of_lt inside,
        Nat.mul_add_div (by omega), Nat.div_eq_of_lt inside, Nat.add_zero]
    rw [Nat.succ_mul, List.range_add, List.filter_append,
      ih (fun segment low => fits segment (Nat.lt_succ_of_lt low)), row, spread_succ]

theorem before_tile {segment index : Nat} (inside : index < width)
    (fits : ∀ earlier < segment, counts earlier ≤ width) :
    before (fun lane => if lane % width < counts (lane / width) then 1 else 0)
      (segment * width + index) = before counts segment + min index (counts segment) := by
  have part : ∀ row last : Nat, last ≤ width →
      before (fun lane => if (row * width + lane) % width < counts ((row * width + lane) / width)
        then 1 else 0) last = min last (counts row) := by
    intro row last within
    rw [← before_row]
    refine before_congr (fun lane low => ?_)
    have narrow : lane < width := by omega
    rw [Nat.mul_comm, Nat.mul_add_mod, Nat.mod_eq_of_lt narrow, Nat.mul_add_div (by omega),
      Nat.div_eq_of_lt narrow, Nat.add_zero]
  have rows : before (fun lane => if lane % width < counts (lane / width) then 1 else 0)
      (segment * width) = before counts segment := by
    induction segment with
    | zero => simp
    | succ segment ih =>
      have narrow := fits segment (Nat.lt_succ_self segment)
      rw [Nat.succ_mul, before_add, ih
        (fun earlier low => fits earlier (Nat.lt_succ_of_lt low)), part segment width (Nat.le_refl _),
        before_succ, Nat.min_eq_right narrow]
  rw [before_add, rows, part segment index inside.le]

end padded

end SpecBlock.Segments
