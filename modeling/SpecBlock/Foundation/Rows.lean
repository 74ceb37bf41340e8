import Mathlib.Algebra.Ring.Nat
import Mathlib.Data.List.Forall2
import Mathlib.Data.List.Basic
import Mathlib.Data.List.Nodup

/-!
# Rows kept in parallel

A batch keeps one entry per request in many lists at once. Selecting surviving
rows gathers every list by the same indices; a round writes a new entry back for
each active row; a batched call decides every row or fails as a whole. The laws
below read such a list at one row.

The operations are generic in the entries, and the row indices are positions.
-/

namespace SpecBlock.Rows

universe u v w
variable {α : Type u} {β : Type v} {ε : Type w}

/-- Entries at the given rows, in the order the rows are listed. -/
def gather (rows : List Nat) (entries : List α) : List α := rows.filterMap (fun row => entries[row]?)

@[simp] theorem gather_nil (entries : List α) : gather [] entries = [] := rfl

theorem gather_cons (row : Nat) (rows : List Nat) (entries : List α) (entry : α)
    (read : entries[row]? = some entry) :
    gather (row :: rows) entries = entry :: gather rows entries := by
  simp [gather, read]

theorem filterMap_length (entries : List α) (select : α → Option β)
    (total : ∀ entry ∈ entries, (select entry).isSome) :
    (entries.filterMap select).length = entries.length := by
  induction entries with
  | nil => rfl
  | cons entry rest ih =>
    obtain ⟨selected, here⟩ := Option.isSome_iff_exists.mp (total entry List.mem_cons_self)
    rw [List.filterMap_cons_some here, List.length_cons, List.length_cons,
      ih (fun other member => total other (List.mem_cons_of_mem _ member))]

theorem filterMap_getElem? (entries : List α) (select : α → Option β)
    (total : ∀ entry ∈ entries, (select entry).isSome) (position : Nat) :
    (entries.filterMap select)[position]? = entries[position]?.bind select := by
  induction entries generalizing position with
  | nil => rfl
  | cons entry rest ih =>
    obtain ⟨selected, here⟩ := Option.isSome_iff_exists.mp (total entry List.mem_cons_self)
    rw [List.filterMap_cons_some here]
    cases position with
    | zero => simp [here]
    | succ position =>
      simpa using ih
        (fun other member => total other (List.mem_cons_of_mem _ member)) position

theorem gather_length (rows : List Nat) (entries : List α)
    (inside : ∀ row ∈ rows, row < entries.length) : (gather rows entries).length = rows.length :=
  filterMap_length rows _ (fun row member => by simpa using inside row member)

/-- The gathered entry at a position is the entry of the row listed there. -/
theorem gather_getElem? (rows : List Nat) (entries : List α)
    (inside : ∀ row ∈ rows, row < entries.length) (position : Nat) :
    (gather rows entries)[position]? = rows[position]?.bind (fun row => entries[row]?) :=
  filterMap_getElem? rows _ (fun row member => by simpa using inside row member) position

theorem gather_map (rows : List Nat) (entries : List α) (change : α → β) :
    gather rows (entries.map change) = (gather rows entries).map change := by
  simp [gather, List.map_filterMap, List.getElem?_map]

theorem mem_of_mem_gather (rows : List Nat) (entries : List α) (entry : α)
    (member : entry ∈ gather rows entries) : entry ∈ entries := by
  obtain ⟨row, -, read⟩ := List.mem_filterMap.mp member
  exact List.mem_of_getElem? read

theorem gather_nodup (rows : List Nat) (entries : List α) (rowsDistinct : rows.Nodup)
    (entriesDistinct : entries.Nodup) : (gather rows entries).Nodup := by
  refine List.Nodup.filterMap ?_ rowsDistinct
  intro left right entry atLeft atRight
  obtain ⟨leftInside, leftRead⟩ := List.getElem?_eq_some_iff.mp atLeft
  obtain ⟨rightInside, rightRead⟩ := List.getElem?_eq_some_iff.mp atRight
  exact (List.Nodup.getElem_inj_iff entriesDistinct).mp (leftRead.trans rightRead.symm)

/-- A batched call that decides each of its rows returns all the decisions. -/
theorem mapM_forall₂ (rows : List α) (decide : α → Except ε β) (relation : α → β → Prop)
    (each : ∀ row ∈ rows, ∃ result, decide row = .ok result ∧ relation row result) :
    ∃ results, rows.mapM decide = .ok results ∧ List.Forall₂ relation rows results := by
  induction rows with
  | nil => exact ⟨[], rfl, .nil⟩
  | cons row rest ih =>
    obtain ⟨result, decided, related⟩ := each row List.mem_cons_self
    obtain ⟨results, others, tail⟩ :=
      ih (fun other member => each other (List.mem_cons_of_mem _ member))
    refine ⟨result :: results, ?_, .cons related tail⟩
    simp [List.mapM_cons, decided, others, bind, Except.bind, pure, Except.pure]

theorem mapM_decided (rows : List α) (decide : α → Except ε β) (results : List β)
    (success : rows.mapM decide = .ok results) :
    List.Forall₂ (fun row result => decide row = .ok result) rows results := by
  induction rows generalizing results with
  | nil =>
    obtain rfl : [] = results := Except.ok.inj success
    exact .nil
  | cons row rest ih =>
    rw [List.mapM_cons] at success
    cases decided : decide row with
    | error reason => simp [decided, bind, Except.bind] at success
    | ok result =>
      cases others : rest.mapM decide with
      | error reason => simp [decided, others, bind, Except.bind] at success
      | ok tail =>
        obtain rfl : result :: tail = results := by
          simpa [decided, others, bind, Except.bind, pure, Except.pure] using success
        exact .cons decided (ih tail others)

theorem mapM_mem (rows : List α) (decide : α → Except ε β) (results : List β)
    (success : rows.mapM decide = .ok results) (row : α) (member : row ∈ rows) :
    ∃ result, decide row = .ok result := by
  obtain ⟨position, inside, rfl⟩ := List.getElem_of_mem member
  have decided := mapM_decided rows decide results success
  exact ⟨_, decided.get inside (decided.length_eq ▸ inside)⟩

/-- A batched call over numbered rows returns each row's decision in its place. -/
theorem mapM_zipIdx (entries : List α) (decide : α × Nat → Except ε β)
    (relation : Nat → α → β → Prop)
    (each : ∀ row entry, entries[row]? = some entry →
      ∃ result, decide (entry, row) = .ok result ∧ relation row entry result) :
    ∃ results, entries.zipIdx.mapM decide = .ok results ∧ results.length = entries.length ∧
      ∀ row entry result, entries[row]? = some entry → results[row]? = some result →
        relation row entry result := by
  obtain ⟨results, decided, related⟩ := mapM_forall₂ entries.zipIdx decide
    (fun entry result => relation entry.2 entry.1 result) (by
      rintro ⟨entry, row⟩ member
      exact each row entry (by simpa using List.mem_zipIdx_iff_getElem?.mp member))
  refine ⟨results, decided, ?_, ?_⟩
  · rw [← related.length_eq, List.length_zipIdx]
  · intro row entry result atEntry atResult
    have numbered : entries.zipIdx[row]? = some (entry, row) := by
      simp [List.getElem?_zipIdx, atEntry]
    obtain ⟨rowBound, readEntry⟩ := List.getElem?_eq_some_iff.mp numbered
    obtain ⟨resultBound, readResult⟩ := List.getElem?_eq_some_iff.mp atResult
    have here := related.get rowBound resultBound
    simpa only [List.get_eq_getElem, readEntry, readResult] using here

/-- Write an update back to each listed row, one row after the other. -/
def scatter (rows : List Nat) (updates : List (α → α)) (entries : List α) : List α :=
  (rows.zip updates).foldl (fun written change => written.modify change.1 change.2) entries

@[simp] theorem scatter_nil (updates : List (α → α)) (entries : List α) :
    scatter [] updates entries = entries := by
  simp [scatter]

@[simp] theorem scatter_cons (row : Nat) (rows : List Nat) (update : α → α)
    (updates : List (α → α)) (entries : List α) :
    scatter (row :: rows) (update :: updates) entries =
      scatter rows updates (entries.modify row update) := rfl

theorem scatter_frame (rows : List Nat) (updates : List (α → α)) (entries : List α) (row : Nat)
    (absent : row ∉ rows) : (scatter rows updates entries)[row]? = entries[row]? := by
  induction rows generalizing updates entries with
  | nil => simp
  | cons first rest ih =>
    obtain ⟨different, others⟩ : row ≠ first ∧ row ∉ rest := by simpa using absent
    cases updates with
    | nil => rfl
    | cons update updates =>
      rw [scatter_cons, ih updates _ others, List.getElem?_modify]
      simp [Ne.symm different]

theorem scatter_getElem? (rows : List Nat) (updates : List (α → α)) (entries : List α)
    (distinct : rows.Nodup) (position row : Nat) (update : α → α)
    (listed : rows[position]? = some row) (given : updates[position]? = some update) :
    (scatter rows updates entries)[row]? = entries[row]?.map update := by
  induction rows generalizing updates entries position with
  | nil => simp at listed
  | cons first rest ih =>
    obtain ⟨absent, others⟩ := List.nodup_cons.mp distinct
    cases updates with
    | nil => simp at given
    | cons change updates =>
      cases position with
      | zero =>
        obtain rfl : first = row := by simpa using listed
        obtain rfl : change = update := by simpa using given
        rw [scatter_cons, scatter_frame rest updates _ first absent, List.getElem?_modify]
        simp
      | succ position =>
        have member : row ∈ rest := List.mem_of_getElem? (by simpa using listed)
        have different : first ≠ row := fun same => absent (same ▸ member)
        rw [scatter_cons, ih updates _ others position (by simpa using listed)
          (by simpa using given), List.getElem?_modify]
        simp [different]

@[simp] theorem scatter_length (rows : List Nat) (updates : List (α → α)) (entries : List α) :
    (scatter rows updates entries).length = entries.length := by
  induction rows generalizing updates entries with
  | nil => simp
  | cons first rest ih =>
    cases updates with
    | nil => rfl
    | cons update updates => simp [ih]

theorem filterMap_range (entries : List α) :
    (List.range entries.length).filterMap (fun row => entries[row]?) = entries := by
  induction entries with
  | nil => rfl
  | cons first rest ih =>
    rw [List.length_cons, List.range_succ_eq_map, List.filterMap_cons_some (by rfl),
      List.filterMap_map]
    exact congrArg (first :: ·) ih

/-- When the listed rows are those that offer a value, each of them receives the update of its own
value. -/
theorem scatter_offers {β : Type*} (offer : Nat → Option β) (update : β → α → α) (rows : List Nat)
    (entries : List α) (distinct : rows.Nodup) (row : Nat) (listed : row ∈ rows) :
    (scatter (rows.filter (fun row => (offer row).isSome)) ((rows.filterMap offer).map update)
        entries)[row]? =
      entries[row]?.map (fun entry => ((offer row).map update).elim entry (fun change => change entry)) := by
  induction rows generalizing entries with
  | nil => simp at listed
  | cons first rest ih =>
    obtain ⟨absent, others⟩ := List.nodup_cons.mp distinct
    have later := fun entries => ih entries others
    cases offered : offer first with
    | none =>
      have skipped : (first :: rest).filter (fun row => (offer row).isSome) =
          rest.filter (fun row => (offer row).isSome) := by simp [offered]
      rw [skipped, List.filterMap_cons_none offered]
      rcases List.mem_cons.mp listed with rfl | member
      · rw [scatter_frame _ _ _ row (fun member => absent (List.mem_filter.mp member).1), offered]
        simp
      · exact later entries member
    | some value =>
      have taken : (first :: rest).filter (fun row => (offer row).isSome) =
          first :: rest.filter (fun row => (offer row).isSome) := by simp [offered]
      rw [taken, List.filterMap_cons_some offered, List.map_cons, scatter_cons]
      rcases List.mem_cons.mp listed with rfl | member
      · rw [scatter_frame _ _ _ row (fun member => absent (List.mem_filter.mp member).1), offered,
          List.getElem?_modify]
        simp
      · have different : first ≠ row := fun same => absent (same ▸ member)
        rw [later _ member, List.getElem?_modify]
        simp [different]

section occurrences

variable [DecidableEq α] (offer : Nat → Option α)

/-- Whether a position offers a value that no earlier position offers. -/
def offersFirst (position : Nat) : Bool :=
  (offer position).isSome &&
    !(List.range position).any (fun earlier => offer earlier == offer position)

/-- A position is first exactly when its value is not among the earlier ones. -/
theorem offersFirst_eq (position : Nat) (value : α) (offered : offer position = some value) :
    offersFirst offer position = decide (value ∉ (List.range position).filterMap offer) := by
  rw [Bool.eq_iff_iff]
  simp [offersFirst, offered]

/-- The values offered first are the distinct values in order of appearance. -/
theorem offersFirst_values (size : Nat) :
    ((List.range size).filter (offersFirst offer)).filterMap offer =
      ((List.range size).filterMap offer).eraseDups := by
  induction size with
  | zero => rfl
  | succ size ih =>
    rw [List.range_succ, List.filter_append, List.filterMap_append, List.filterMap_append,
      List.eraseDups_append, ih]
    congr 1
    cases offered : offer size with
    | none => simp [offersFirst, offered]
    | some value =>
      have first := offersFirst_eq offer size value offered
      have alone : [size].filterMap offer = [value] := by simp [offered]
      rw [alone]
      generalize (List.range size).filterMap offer = earlier at first ⊢
      by_cases before : value ∈ earlier
      · rw [decide_eq_false (not_not.mpr before)] at first
        simp [first, List.removeAll, before]
      · rw [decide_eq_true before] at first
        simp [first, offered, List.removeAll, before, List.eraseDups_cons]

theorem offersFirst_nodup (size : Nat) :
    (((List.range size).filter (offersFirst offer)).filterMap offer).Nodup := by
  induction size with
  | zero => exact List.nodup_nil
  | succ size ih =>
    rw [List.range_succ, List.filter_append, List.filterMap_append]
    cases first : offersFirst offer size with
    | false => simpa [first] using ih
    | true =>
      have offers : (offer size).isSome = true := (Bool.and_eq_true_iff.mp first).1
      obtain ⟨value, offered⟩ := Option.isSome_iff_exists.mp offers
      have fresh : value ∉ (List.range size).filterMap offer := by
        rw [offersFirst_eq offer size value offered] at first
        exact of_decide_eq_true first
      rw [List.nodup_append]
      refine ⟨ih, by simp [first, offered], ?_⟩
      intro earlier member latest atEnd
      obtain rfl : latest = value := by simpa [first, offered] using atEnd
      rintro rfl
      rw [offersFirst_values, List.mem_eraseDups] at member
      exact fresh member

end occurrences

end SpecBlock.Rows
