import Mathlib.Data.List.Nodup

/-!
# Dictionaries in order of insertion

A dictionary is a list of entries, no key twice. Storing under a key that is present overwrites its
value and leaves the entry where it is; storing under another key puts a new entry at the end. What
is read under a key is what was stored last under it.
-/

namespace SpecBlock

universe u v

/-- Entries in order of insertion, no key twice. -/
structure Dict (κ : Type u) (ν : Type v) where
  entries : List (κ × ν)
  distinct : (entries.map Prod.fst).Nodup

namespace Dict

variable {κ : Type u} {ν : Type v}

/-- No entries. -/
def empty : Dict κ ν := ⟨[], List.nodup_nil⟩

variable [DecidableEq κ]

/-- The entries once a value is stored under a key. -/
def store (key : κ) (value : ν) : List (κ × ν) → List (κ × ν)
  | [] => [(key, value)]
  | entry :: rest =>
    if entry.1 = key then (key, value) :: rest else entry :: store key value rest

theorem keys_store (key : κ) (value : ν) (entries : List (κ × ν)) :
    (store key value entries).map Prod.fst =
      if key ∈ entries.map Prod.fst then entries.map Prod.fst
      else entries.map Prod.fst ++ [key] := by
  induction entries with
  | nil => simp [store]
  | cons entry rest ih =>
    by_cases here : entry.1 = key
    · simp [store, here]
    · rw [store, if_neg here, List.map_cons, ih, List.map_cons]
      by_cases present : key ∈ rest.map Prod.fst
      · rw [if_pos present, if_pos (List.mem_cons_of_mem _ present)]
      · rw [if_neg present, if_neg (List.not_mem_cons_of_ne_of_not_mem (Ne.symm here) present),
          List.cons_append]

theorem distinct_store (key : κ) (value : ν) {entries : List (κ × ν)}
    (distinct : (entries.map Prod.fst).Nodup) :
    ((store key value entries).map Prod.fst).Nodup := by
  rw [keys_store]
  split
  next => exact distinct
  next absent =>
    exact distinct.append (List.nodup_singleton key) (by simpa using absent)

/-- `dict[key] = value`. -/
def set (dict : Dict κ ν) (key : κ) (value : ν) : Dict κ ν :=
  ⟨store key value dict.entries, distinct_store key value dict.distinct⟩

/-- `dict.get(key)`. -/
def get? (dict : Dict κ ν) (key : κ) : Option ν := dict.entries.lookup key

/-- `dict.get(key, default)`. -/
def getD (dict : Dict κ ν) (key : κ) (default : ν) : ν := (dict.get? key).getD default

theorem lookup_entry (entry : κ × ν) (rest : List (κ × ν)) (other : κ) :
    (entry :: rest).lookup other = if other = entry.1 then some entry.2 else rest.lookup other := by
  rw [List.lookup_cons]
  by_cases same : other = entry.1
  · rw [if_pos same, beq_iff_eq.mpr same]
  · rw [if_neg same, beq_eq_false_iff_ne.mpr same]

theorem lookup_store (key : κ) (value : ν) (entries : List (κ × ν)) (other : κ) :
    (store key value entries).lookup other =
      if other = key then some value else entries.lookup other := by
  induction entries with
  | nil => exact lookup_entry (key, value) [] other
  | cons entry rest ih =>
    rw [lookup_entry]
    by_cases here : entry.1 = key
    · rw [store, if_pos here, lookup_entry, here]
      split <;> rfl
    · rw [store, if_neg here, lookup_entry, ih]
      by_cases same : other = key
      · rw [if_pos same, if_pos same, if_neg (fun first => here (first.symm.trans same))]
      · rw [if_neg same, if_neg same]

/-- What is read after storing: the value under its key, and every other key as before. -/
theorem get?_set (dict : Dict κ ν) (key : κ) (value : ν) (other : κ) :
    (dict.set key value).get? other = if other = key then some value else dict.get? other :=
  lookup_store key value dict.entries other

theorem getD_set (dict : Dict κ ν) (key : κ) (value : ν) (other : κ) (default : ν) :
    (dict.set key value).getD other default =
      if other = key then value else dict.getD other default := by
  rw [getD, get?_set]
  split <;> rfl

end Dict

end SpecBlock
