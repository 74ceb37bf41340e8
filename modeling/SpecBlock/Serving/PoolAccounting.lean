import SpecBlock.Serving.PoolCapacity

/-!
# What the pool counts as allocated

`free` passes over the sentinel when it extends the free list, but subtracts the length of
the whole list from `n_alloc`. So the count falls short of the slots that are out by the
sentinels returned since the pool was created or last reset, and it is exact precisely when
there were none.

The free list itself is always right: free and held slots are those of the pool, each once.
-/

namespace SpecBlock.Serving

/-- A pool with the slots its callers hold. `padding` counts the sentinels among the indices
returned since the pool was created or last reset; no operation reads it. -/
structure AccountedPool where
  pool : SpecBlockKVPool
  held : List Nat
  padding : Nat
  deriving DecidableEq, Repr

namespace AccountedPool

open PoolHistory

/-- One operation. Callers return slots they hold, possibly padded with the sentinel. -/
inductive Step : AccountedPool → AccountedPool → Prop
  | alloc (state : AccountedPool) (n : Nat) (loc : List Nat) (final : SpecBlockKVPool)
      (ran : SpecBlockKVPool.alloc n state.pool = .ok loc final) :
      Step state { state with pool := final, held := loc ++ state.held }
  | allocRaises (state : AccountedPool) (n : Nat) (reason : RuntimeError)
      (final : SpecBlockKVPool) (ran : SpecBlockKVPool.alloc n state.pool = .error reason final) :
      Step state { state with pool := final }
  | free (state : AccountedPool) (indices kept : List Nat) (final : SpecBlockKVPool)
      (holds : state.held.Perm (indices.filter (· ≠ 0) ++ kept))
      (ran : SpecBlockKVPool.release indices state.pool = .ok () final) :
      Step state ⟨final, kept, state.padding + indices.count 0⟩
  | grow (state : AccountedPool) (newSize : Nat) (final : SpecBlockKVPool)
      (ran : SpecBlockKVPool.grow newSize state.pool = .ok () final) :
      Step state { state with pool := final }
  | reset (state : AccountedPool) : Step state ⟨state.pool.reset, [], 0⟩

/-- Histories of a new pool. -/
def system : System AccountedPool where
  start state := ∃ initialPoolSize maxPoolSize,
    SpecBlockKVPool.create initialPoolSize maxPoolSize = .ok state.pool ∧
      state.held = [] ∧ state.padding = 0
  step := Step

/-- The count is the number of slots handed out and not returned, it complements the free list,
and it is not negative. -/
def Exact (state : AccountedPool) : Prop :=
  state.pool.nAlloc = state.held.length ∧
    state.pool.nAlloc + state.pool.free.length = (state.pool.poolSize : Int) - 1 ∧
    0 ≤ state.pool.nAlloc

/-- The slots are accounted for, and the count falls short of the held ones by the padding. -/
structure Counted (state : AccountedPool) : Prop where
  sound : Sound state.pool state.held
  short : state.pool.nAlloc + state.padding = state.held.length

theorem filter_length (indices : List Nat) :
    (indices.filter (· ≠ 0)).length + indices.count 0 = indices.length := by
  induction indices with
  | nil => rfl
  | cons index indices ih =>
    by_cases sentinel : index = 0
    · subst sentinel
      simp only [ne_eq, not_true_eq_false, decide_false, Bool.false_eq_true, not_false_eq_true,
        List.filter_cons_of_neg, List.count_cons_self, List.length_cons] at ih ⊢
      omega
    · rw [List.filter_cons_of_pos (by simpa using sentinel), List.count_cons_of_ne sentinel,
        List.length_cons, List.length_cons]
      omega

theorem step_counted {state following : AccountedPool} (counted : state.Counted)
    (taken : Step state following) : following.Counted := by
  cases taken with
  | alloc n loc final ran =>
    refine ⟨counted.sound.alloc_ok ran, ?_⟩
    have moved := (SpecBlockKVPool.alloc_ledger ran).1.counted
    have short := counted.short
    simp only [SpecBlockKVPool.slots, List.length_nil, List.length_append] at moved ⊢
    omega
  | allocRaises n reason final ran =>
    obtain rfl := counted.sound.alloc_error ran
    exact counted
  | free indices kept final holds ran =>
    refine ⟨(counted.sound.release holds ran).1, ?_⟩
    have sizes := holds.length_eq
    have sentinels := filter_length indices
    have short := counted.short
    rw [List.length_append] at sizes
    obtain rfl := PoolM.modify_ok.mp ran
    show (if indices = [] then state.pool else _ : SpecBlockKVPool).nAlloc + _ = _
    by_cases empty : indices = []
    · subst empty
      simp only [if_true, List.count_nil, List.length_nil] at sizes sentinels ⊢
      omega
    · rw [if_neg empty]
      simp only
      omega
  | grow newSize final ran =>
    refine ⟨counted.sound.grow_ok ran, ?_⟩
    have moved := (SpecBlockKVPool.grow_ledger ran).1.counted
    have short := counted.short
    simp only [SpecBlockKVPool.slots, List.length_nil] at moved ⊢
    omega
  | reset => exact ⟨counted.sound.reset, rfl⟩

theorem reachable_counted {state : AccountedPool} (reached : system.Reachable state) :
    state.Counted := by
  apply reached.invariant Counted
  · rintro state ⟨initialPoolSize, maxPoolSize, created, none, unpadded⟩
    refine ⟨?_, ?_⟩
    · rw [none]
      exact Sound.create created
    · have issued := (SpecBlockKVPool.create_whole created).counted
      rw [none, unpadded]
      simpa [SpecBlockKVPool.slots] using issued
  · intro state following counted taken
    exact step_counted counted taken

/-- After any history the count is exact if and only if no sentinel was returned since the
pool was created or last reset. -/
theorem count_exact_iff (state : AccountedPool) (reached : system.Reachable state) :
    state.Exact ↔ state.padding = 0 := by
  have counted := reachable_counted reached
  have short := counted.short
  have filled := counted.sound.filled
  have reserved := counted.sound.reserved
  unfold Exact
  constructor
  · rintro ⟨count, -, -⟩
    omega
  · intro unpadded
    rw [unpadded] at short
    refine ⟨by omega, by omega, by omega⟩

/-- A new pool of four slots. -/
def fourSlots : AccountedPool where
  pool := ⟨4, 4, [1, 2, 3], 0, 0, false, 0⟩
  held := []
  padding := 0

/-- The pool with its first slot out. -/
def oneOut : AccountedPool where
  pool := ⟨4, 4, [2, 3], 1, 1, false, 0⟩
  held := [1]
  padding := 0

theorem oneOut_reachable : system.Reachable oneOut := by
  have start : system.Reachable fourSlots := .start _ ⟨4, 4, rfl, rfl, rfl⟩
  exact start.step _ _ (.alloc fourSlots 1 [1] oneOut.pool rfl)

/-- The pool with its second slot out and its first one back. -/
def oneBack : AccountedPool where
  pool := ⟨4, 4, [3, 1], 1, 2, false, 0⟩
  held := [2]
  padding := 0

theorem oneBack_reachable : system.Reachable oneBack := by
  have start : system.Reachable fourSlots := .start _ ⟨4, 4, rfl, rfl, rfl⟩
  have lent := start.step _ _ (.alloc fourSlots 2 [1, 2] ⟨4, 4, [3], 2, 2, false, 0⟩ rfl)
  exact lent.step _ _ (.free _ [1] [2] _ (by decide) rfl)

/-- After two slots were handed out and one of them returned the count is exact. -/
theorem count_exact_iff_one : oneBack.Exact :=
  (count_exact_iff oneBack oneBack_reachable).mpr rfl

/-- Returning the slot with one sentinel makes the count negative. -/
theorem count_negative : ∃ state, system.Reachable state ∧ state.held = [] ∧
    state.pool.nAlloc = -1 ∧ ¬ state.Exact := by
  have returned : system.Reachable ⟨⟨4, 4, [2, 3, 1], -1, 1, false, 0⟩, [], 1⟩ :=
    oneOut_reachable.step _ _ (.free oneOut [1, 0] [] _ (by decide) rfl)
  refine ⟨_, returned, rfl, rfl, ?_⟩
  rintro ⟨-, -, nonnegative⟩
  exact absurd nonnegative (by decide)

end AccountedPool

end SpecBlock.Serving
