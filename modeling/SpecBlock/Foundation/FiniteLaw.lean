import Mathlib.Algebra.BigOperators.Group.Finset.Basic
import Mathlib.Algebra.BigOperators.Intervals
import Mathlib.Algebra.BigOperators.Field
import Mathlib.Algebra.BigOperators.Ring.List
import Mathlib.Algebra.Order.BigOperators.Group.Finset
import Mathlib.Algebra.Order.Field.Rat
import Mathlib.Data.Rat.Cast.Order
import Mathlib.Tactic.FieldSimp
import Mathlib.Tactic.Ring
import Mathlib.Tactic.Linarith

/-!
# Finite laws with rational weights

A random computation over exact draws is a list of outcomes with rational
weights. Outcomes may repeat, so two laws are compared through the expectations
they give to every function of the outcome. `expect` turns the sequencing of
draws into nested sums, and a list of independent draws can be read one entry at
a time when each draw has total weight one.

The draws are a comparison of a uniform number with a threshold and a choice by
unnormalised weights.
-/

namespace SpecBlock

universe u v
variable {α β : Type u}

/-- Outcomes with their weights, in the order the computation lists them. -/
@[ext] structure Law (α : Type u) where
  draws : List (α × ℚ)

namespace Law

/-- The certain outcome. -/
protected def pure (outcome : α) : Law α := ⟨[(outcome, 1)]⟩

/-- Draw, then continue from the outcome. -/
protected def bind (law : Law α) (next : α → Law β) : Law β :=
  ⟨law.draws.flatMap (fun draw =>
    (next draw.1).draws.map (fun result => (result.1, draw.2 * result.2)))⟩

instance : Monad Law where
  pure := Law.pure
  bind := Law.bind

/-- Outcomes that are listed, whatever their weight. -/
def outcomes (law : Law α) : List α := law.draws.map Prod.fst

/-- Expectation of a function of the outcome. -/
def expect (law : Law α) (value : α → ℚ) : ℚ :=
  (law.draws.map (fun draw => draw.2 * value draw.1)).sum

/-- Equality in law: equal expectations for every function. -/
def Same (left right : Law α) : Prop := ∀ value : α → ℚ, left.expect value = right.expect value

theorem draws_pure (outcome : α) : (pure outcome : Law α).draws = [(outcome, 1)] := rfl

theorem draws_bind (law : Law α) (next : α → Law β) :
    (law >>= next).draws = law.draws.flatMap (fun draw =>
      (next draw.1).draws.map (fun result => (result.1, draw.2 * result.2))) := rfl

theorem pure_bind (outcome : α) (next : α → Law β) : (pure outcome >>= next) = next outcome := by
  apply Law.ext
  simp [draws_bind, draws_pure]

theorem bind_assoc {γ : Type u} (law : Law α) (next : α → Law β) (last : β → Law γ) :
    (law >>= next >>= last) = (law >>= fun outcome => next outcome >>= last) := by
  apply Law.ext
  simp only [draws_bind, List.flatMap_assoc, List.map_flatMap, List.flatMap_map, List.map_map,
    Function.comp_def, mul_assoc]

@[simp] theorem expect_pure (outcome : α) (value : α → ℚ) :
    (pure outcome : Law α).expect value = value outcome := by
  simp [expect, draws_pure]

/-- The expectation of a sequence of draws is the nested expectation. -/
@[simp] theorem expect_bind (law : Law α) (next : α → Law β) (value : β → ℚ) :
    (law >>= next).expect value = law.expect (fun outcome => (next outcome).expect value) := by
  rw [expect, draws_bind, expect]
  induction law.draws with
  | nil => rfl
  | cons draw rest ih =>
    rw [List.flatMap_cons, List.map_append, List.sum_append, ih,
      List.map_cons, List.sum_cons, List.map_map, expect, ← List.sum_map_mul_left]
    simp only [Function.comp_def, mul_assoc]

@[simp] theorem expect_map (law : Law α) (change : α → β) (value : β → ℚ) :
    (law >>= fun outcome => pure (change outcome)).expect value =
      law.expect (fun outcome => value (change outcome)) := by
  simp

/-- Expectations of functions that agree on the listed outcomes are equal. -/
theorem expect_congr (law : Law α) (left right : α → ℚ)
    (agree : ∀ outcome ∈ law.outcomes, left outcome = right outcome) :
    law.expect left = law.expect right := by
  unfold expect
  congr 1
  apply List.map_congr_left
  intro draw member
  rw [agree draw.1 (List.mem_map_of_mem member)]

/-- A constant is its own expectation under total weight one. -/
theorem expect_const (law : Law α) (constant : ℚ) :
    law.expect (fun _ => constant) = law.expect (fun _ => 1) * constant := by
  unfold expect
  induction law.draws with
  | nil => simp
  | cons draw rest ih =>
    simp only [List.map_cons, List.sum_cons, mul_one] at ih ⊢
    rw [ih]
    ring

/-- Every outcome of some weight is good. -/
def Surely (law : Law α) (good : α → Prop) : Prop :=
  ∀ draw ∈ law.draws, draw.2 ≠ 0 → good draw.1

theorem surely_pure (outcome : α) (good : α → Prop) :
    (pure outcome : Law α).Surely good ↔ good outcome := by
  simp [Surely, draws_pure]

theorem surely_map (law : Law α) (change : α → β) (good : β → Prop) :
    (law >>= fun outcome => pure (change outcome)).Surely good ↔
      law.Surely (fun outcome => good (change outcome)) := by
  simp only [Surely, draws_bind, draws_pure, List.mem_flatMap, List.map_cons, List.map_nil,
    List.mem_singleton, mul_one]
  constructor
  · intro all draw member some_weight
    exact all (change draw.1, draw.2) ⟨draw, member, rfl⟩ some_weight
  · rintro all _ ⟨draw, member, rfl⟩ some_weight
    exact all draw member some_weight

/-- All weights together are one. -/
def Total (law : Law α) : Prop := law.expect (fun _ => 1) = 1

theorem total_pure (outcome : α) : (pure outcome : Law α).Total := by simp [Total]

theorem total_bind (law : Law α) (next : α → Law β) (total : law.Total)
    (continues : ∀ outcome ∈ law.outcomes, (next outcome).Total) : (law >>= next).Total := by
  unfold Total
  rw [expect_bind, expect_congr law _ (fun _ => 1) (fun outcome member => continues outcome member)]
  exact total

/-- Outcomes of a sequence come from an outcome of its first draw. -/
theorem mem_outcomes_bind (law : Law α) (next : α → Law β) (result : β) :
    result ∈ (law >>= next).outcomes ↔
      ∃ outcome ∈ law.outcomes, result ∈ (next outcome).outcomes := by
  simp only [outcomes, draws_bind, List.mem_map, List.mem_flatMap]
  constructor
  · rintro ⟨_, ⟨draw, drawn, final, reached, rfl⟩, rfl⟩
    exact ⟨draw.1, ⟨draw, drawn, rfl⟩, final, reached, rfl⟩
  · rintro ⟨_, ⟨draw, drawn, rfl⟩, final, reached, rfl⟩
    exact ⟨_, ⟨draw, drawn, final, reached, rfl⟩, rfl⟩

@[simp] theorem mem_outcomes_pure (outcome result : α) :
    result ∈ (pure outcome : Law α).outcomes ↔ result = outcome := by
  simp [outcomes, draws_pure]

section draws

/-- Whether a uniform number of the unit interval is at most the threshold. -/
def uniformLe (threshold : ℚ) : Law Bool :=
  ⟨[(true, max 0 (min threshold 1)), (false, 1 - max 0 (min threshold 1))]⟩

/-- Expectation over a comparison with a threshold in the unit interval. -/
theorem expect_uniformLe (threshold : ℚ) (value : Bool → ℚ) (nonnegative : 0 ≤ threshold)
    (bounded : threshold ≤ 1) :
    (uniformLe threshold).expect value =
      threshold * value true + (1 - threshold) * value false := by
  simp [expect, uniformLe, min_eq_left bounded, max_eq_right nonnegative]

theorem total_uniformLe (threshold : ℚ) : (uniformLe threshold).Total := by
  simp [Total, expect, uniformLe]

/-- A choice below a size by unnormalised weights. -/
def multinomial (size : Nat) (weights : Nat → ℚ) : Law Nat :=
  ⟨(List.range size).map (fun token =>
    (token, weights token / ∑ other ∈ Finset.range size, weights other))⟩

/-- Sums over the numbers below a size, as lists and as finite sets. -/
theorem sum_range_eq (size : Nat) (value : Nat → ℚ) :
    ((List.range size).map value).sum = ∑ token ∈ Finset.range size, value token := by
  induction size with
  | zero => rfl
  | succ size ih =>
    rw [List.range_succ, List.map_append, List.sum_append, ih,
      Finset.sum_range_succ]
    simp

/-- A choice by weights averages with the normalised weights. -/
theorem expect_multinomial (size : Nat) (weights value : Nat → ℚ) :
    (multinomial size weights).expect value =
      (∑ token ∈ Finset.range size, weights token * value token) /
        ∑ token ∈ Finset.range size, weights token := by
  rw [expect, multinomial, List.map_map, Function.comp_def, sum_range_eq, Finset.sum_div]
  exact Finset.sum_congr rfl (fun token _ => by ring)

theorem total_multinomial (size : Nat) (weights : Nat → ℚ)
    (mass : ∑ token ∈ Finset.range size, weights token ≠ 0) : (multinomial size weights).Total := by
  unfold Total
  rw [expect_multinomial]
  simp only [mul_one]
  exact div_self mass

/-- A choice by weights is surely good when every token of some weight is. -/
theorem surely_multinomial (size : Nat) (weights : Nat → ℚ)
    (mass : ∑ token ∈ Finset.range size, weights token ≠ 0) (good : Nat → Prop) :
    (multinomial size weights).Surely good ↔ ∀ token < size, weights token ≠ 0 → good token := by
  simp [Surely, multinomial, mass]

/-- Ancestral sampling: each token is drawn given the ones before it, for as long
as the tokens so far are to be continued and the allowance lasts. -/
def ancestral (size : Nat) (target : List Nat → Nat → ℚ) (continued : List Nat → Bool) :
    Nat → List Nat → Law (List Nat)
  | 0, tokens => do
      let token ← multinomial size (target tokens)
      pure (tokens ++ [token])
  | allowance + 1, tokens => do
      let token ← multinomial size (target tokens)
      if continued (tokens ++ [token]) then
        ancestral size target continued allowance (tokens ++ [token])
      else pure (tokens ++ [token])

theorem expect_ancestral (size : Nat) (target : List Nat → Nat → ℚ) (continued : List Nat → Bool)
    (allowance : Nat) (tokens : List Nat) (value : List Nat → ℚ)
    (normalised : ∑ token ∈ Finset.range size, target tokens token = 1) :
    (ancestral size target continued (allowance + 1) tokens).expect value =
      ∑ token ∈ Finset.range size, target tokens token *
        (if continued (tokens ++ [token]) then
          (ancestral size target continued allowance (tokens ++ [token])).expect value
        else value (tokens ++ [token])) := by
  rw [ancestral, expect_bind, expect_multinomial, normalised, div_one]
  refine Finset.sum_congr rfl (fun token _ => ?_)
  split <;> simp

/-- Ancestral sampling only appends to the tokens, and at least one. -/
theorem mem_ancestral (size : Nat) (target : List Nat → Nat → ℚ) (continued : List Nat → Bool)
    (allowance : Nat) (tokens emission : List Nat)
    (member : emission ∈ (ancestral size target continued allowance tokens).outcomes) :
    ∃ rest token, emission = tokens ++ rest ++ [token] := by
  induction allowance generalizing tokens with
  | zero =>
    obtain ⟨token, _, last⟩ := (mem_outcomes_bind _ _ _).mp member
    rw [mem_outcomes_pure] at last
    exact ⟨[], token, by rw [last, List.append_nil]⟩
  | succ allowance ih =>
    obtain ⟨token, _, later⟩ := (mem_outcomes_bind _ _ _).mp member
    split at later
    · obtain ⟨rest, last, same⟩ := ih (tokens ++ [token]) later
      exact ⟨token :: rest, last, by rw [same]; simp⟩
    · rw [mem_outcomes_pure] at later
      exact ⟨[], token, by rw [later, List.append_nil]⟩

end draws

section independent

/-- Independent draws, in order. -/
def each : List (Law α) → Law (List α)
  | [] => pure []
  | law :: rest => do
      let outcome ← law
      let outcomes ← each rest
      pure (outcome :: outcomes)

theorem total_each (laws : List (Law α)) (total : ∀ law ∈ laws, law.Total) : (each laws).Total := by
  induction laws with
  | nil => exact total_pure []
  | cons law rest ih =>
    refine total_bind _ _ (total law List.mem_cons_self) (fun outcome _ => ?_)
    refine total_bind _ _ (ih fun other member =>
      total other (List.mem_cons_of_mem _ member)) (fun _ _ => total_pure _)

/-- One entry of independent total draws has the law of its own draw. -/
theorem each_marginal (laws : List (Law α)) (total : ∀ law ∈ laws, law.Total) (row : Nat)
    (value : Option α → ℚ) :
    (each laws).expect (fun outcomes => value outcomes[row]?) =
      laws[row]?.elim (value none) (fun law => law.expect (fun outcome => value (some outcome))) := by
  induction laws generalizing row with
  | nil => simp [each]
  | cons first rest ih =>
    have restTotal : ∀ other ∈ rest, other.Total :=
      fun other member => total other (List.mem_cons_of_mem _ member)
    rw [each, expect_bind]
    simp only [expect_bind, expect_pure]
    cases row with
    | zero =>
      simp only [List.getElem?_cons_zero, Option.elim_some]
      apply expect_congr
      intro outcome _
      rw [expect_const, total_each rest restTotal, one_mul]
    | succ row =>
      simp only [List.getElem?_cons_succ]
      rw [ih restTotal row, expect_const, total first List.mem_cons_self, one_mul]

theorem mem_outcomes_each (laws : List (Law α)) (outcomes : List α)
    (member : outcomes ∈ (each laws).outcomes) :
    List.Forall₂ (fun outcome law => outcome ∈ Law.outcomes law) outcomes laws := by
  induction laws generalizing outcomes with
  | nil =>
    rw [each, mem_outcomes_pure] at member
    exact member ▸ .nil
  | cons law rest ih =>
    rw [each] at member
    obtain ⟨outcome, drawn, others⟩ := (mem_outcomes_bind _ _ _).mp member
    obtain ⟨tail, drawnTail, last⟩ := (mem_outcomes_bind _ _ _).mp others
    rw [mem_outcomes_pure] at last
    exact last ▸ .cons drawn (ih tail drawnTail)

variable {δ : Type v}

/-- Phases in which every row makes an independent draw from its own state. -/
def parallel (step : δ → Nat → α → Law α) : List δ → List α → Law (List α)
  | [], states => pure states
  | phase :: phases, states => do
      let advanced ← each (states.mapIdx (step phase))
      parallel step phases advanced

/-- The phases of one row alone. -/
def sequential (step : δ → α → Law α) : List δ → α → Law α
  | [], state => pure state
  | phase :: phases, state => do
      let advanced ← step phase state
      sequential step phases advanced

theorem total_sequential (step : δ → α → Law α) (total : ∀ phase state, (step phase state).Total)
    (phases : List δ) (state : α) : (sequential step phases state).Total := by
  induction phases generalizing state with
  | nil => exact total_pure state
  | cons phase phases ih =>
    exact total_bind _ _ (total phase state) (fun advanced _ => ih advanced)

/-- A row of the parallel phases has the law of its own phases: what the other
rows draw does not matter. -/
theorem parallel_marginal (step : δ → Nat → α → Law α)
    (total : ∀ phase row state, (step phase row state).Total) (phases : List δ)
    (states : List α) (row : Nat) (value : Option α → ℚ) :
    (parallel step phases states).expect (fun final => value final[row]?) =
      states[row]?.elim (value none) (fun state =>
        (sequential (fun phase => step phase row) phases state).expect
          (fun final => value (some final))) := by
  induction phases generalizing states with
  | nil => cases listed : states[row]? <;> simp [parallel, sequential, listed]
  | cons phase phases ih =>
    have drawTotal : ∀ law ∈ states.mapIdx (step phase), law.Total := by
      intro law member
      obtain ⟨index, inside, rfl⟩ := List.mem_mapIdx.mp member
      exact total phase index _
    rw [parallel, expect_bind]
    simp only [ih]
    have marginal := each_marginal _ drawTotal row (fun entry => entry.elim (value none)
      (fun state => (sequential (fun phase => step phase row) phases state).expect
        (fun final => value (some final))))
    rw [marginal, List.getElem?_mapIdx]
    cases states[row]? with
    | none => rfl
    | some state => simp [sequential]

/-- What every row's own draw leads to holds of each row after a round of draws. -/
theorem mem_outcomes_rows (step : Nat → α → Law β) (good : Nat → α → Prop)
    (after : Nat → β → Prop)
    (leads : ∀ row state, good row state → ∀ outcome ∈ (step row state).outcomes,
      after row outcome)
    (states : List α) (final : List β)
    (holds : ∀ row state, states[row]? = some state → good row state)
    (member : final ∈ (each (states.mapIdx step)).outcomes) :
    final.length = states.length ∧ ∀ row outcome, final[row]? = some outcome →
      after row outcome := by
  have rows := mem_outcomes_each _ _ member
  have lengths : final.length = states.length := by
    rw [rows.length_eq, List.length_mapIdx]
  refine ⟨lengths, ?_⟩
  intro row state read
  obtain ⟨inside, rfl⟩ := List.getElem?_eq_some_iff.mp read
  have inStates : row < states.length := lengths ▸ inside
  have own := rows.get inside (by simpa using inStates)
  simp only [List.get_eq_getElem, List.getElem_mapIdx] at own
  exact leads row states[row] (holds row _ (List.getElem?_eq_getElem inStates)) _ own

/-- What every phase of every row preserves holds of each row after the phases. -/
theorem mem_outcomes_parallel (step : δ → Nat → α → Law α) (good : Nat → α → Prop)
    (preserved : ∀ phase row state, good row state →
      ∀ outcome ∈ (step phase row state).outcomes, good row outcome)
    (phases : List δ) (states final : List α)
    (holds : ∀ row state, states[row]? = some state → good row state)
    (member : final ∈ (parallel step phases states).outcomes) :
    final.length = states.length ∧ ∀ row state, final[row]? = some state → good row state := by
  induction phases generalizing states with
  | nil =>
    rw [parallel, mem_outcomes_pure] at member
    subst member
    exact ⟨rfl, holds⟩
  | cons phase phases ih =>
    obtain ⟨advanced, drawn, later⟩ := (mem_outcomes_bind _ _ _).mp member
    obtain ⟨lengths, kept⟩ :=
      mem_outcomes_rows (step phase) good good (preserved phase) states advanced holds drawn
    rw [← lengths]
    exact ih advanced kept later

end independent

section product

theorem Same.symm {left right : Law α} (same : left.Same right) : right.Same left :=
  fun value => (same value).symm

theorem Same.trans {left middle right : Law α} (same : left.Same middle)
    (after : middle.Same right) : left.Same right :=
  fun value => (same value).trans (after value)

/-- Equal laws stay equal when their outcomes are changed alike. -/
theorem Same.map {left right : Law α} (same : left.Same right) (change : α → β) :
    (left >>= fun outcome => pure (change outcome)).Same
      (right >>= fun outcome => pure (change outcome)) := by
  intro value
  rw [expect_map, expect_map]
  exact same (fun outcome => value (change outcome))

theorem expect_add (law : Law α) (left right : α → ℚ) :
    law.expect (fun outcome => left outcome + right outcome) =
      law.expect left + law.expect right := by
  unfold expect
  induction law.draws with
  | nil => simp
  | cons draw rest ih =>
    simp only [List.map_cons, List.sum_cons, ih]
    ring

/-- Expectations over a multiple are multiples of expectations. -/
theorem expect_mul (law : Law α) (factor : ℚ) (value : α → ℚ) :
    law.expect (fun outcome => factor * value outcome) = factor * law.expect value := by
  unfold expect
  induction law.draws with
  | nil => simp
  | cons draw rest ih =>
    simp only [List.map_cons, List.sum_cons, ih]
    ring

/-- Two draws that do not look at each other may be made in either order. -/
theorem expect_swap (first : Law α) (second : Law β) (value : α → β → ℚ) :
    first.expect (fun outcome => second.expect (value outcome)) =
      second.expect (fun other => first.expect (fun outcome => value outcome other)) := by
  unfold expect
  induction first.draws with
  | nil => simp
  | cons draw rest ih =>
    have split := expect_add second (fun other => draw.2 * value draw.1 other)
      (fun other => (rest.map (fun later => later.2 * value later.1 other)).sum)
    have scaled := expect_mul second draw.2 (value draw.1)
    unfold expect at split scaled
    simp only [List.map_cons, List.sum_cons, ih]
    rw [split, scaled]

theorem each_congr {σ : Type v} (rows : List σ) (left right : Nat → σ → Law α)
    (same : ∀ row entry, rows[row]? = some entry → (left row entry).Same (right row entry)) :
    (each (rows.mapIdx left)).Same (each (rows.mapIdx right)) := by
  induction rows generalizing left right with
  | nil => exact fun _ => rfl
  | cons entry rest ih =>
    intro value
    simp only [List.mapIdx_cons, each, expect_bind, expect_pure]
    rw [same 0 entry rfl]
    refine congrArg _ (funext fun outcome => ?_)
    exact ih (fun row => left (row + 1)) (fun row => right (row + 1))
      (fun row other read => same (row + 1) other read) (fun outcomes => value (outcome :: outcomes))

theorem each_map (laws : List (Law α)) (change : Nat → α → β) :
    (each laws >>= fun outcomes => pure (outcomes.mapIdx change)) =
      each (laws.mapIdx (fun row law => law >>= fun outcome => pure (change row outcome))) := by
  induction laws generalizing change with
  | nil => exact pure_bind _ _
  | cons law rest ih =>
    simp only [each, List.mapIdx_cons, bind_assoc, pure_bind]
    simp only [← ih (fun row => change (row + 1)), bind_assoc, pure_bind]

/-- Rounds of independent draws are independent across the rows: drawing the
first round of every row and then the second is drawing both of each row in turn. -/
theorem each_rounds (laws : List (Law α)) (next : Nat → α → Law β) :
    (each laws >>= fun outcomes => each (outcomes.mapIdx next)).Same
      (each (laws.mapIdx (fun row law => law >>= next row))) := by
  induction laws generalizing next with
  | nil => exact fun value => by simp [each]
  | cons law rest ih =>
    intro value
    simp only [each, List.mapIdx_cons, expect_bind, expect_pure]
    refine congrArg _ (funext fun outcome => ?_)
    rw [expect_swap]
    refine congrArg _ (funext fun result => ?_)
    have later := ih (fun row => next (row + 1))
      (fun results => value (result :: results))
    rw [expect_bind] at later
    exact later

theorem parallel_each {δ : Type v} (step : δ → Nat → α → Law α) (phases : List δ)
    (states : List α) :
    (parallel step phases states).Same (each (states.mapIdx (fun row state =>
      sequential (fun phase => step phase row) phases state))) := by
  induction phases generalizing states with
  | nil =>
    have certain : each (states.mapIdx (fun _ state => (pure state : Law α))) = pure states := by
      induction states with
      | nil => rfl
      | cons state rest ih =>
        rw [List.mapIdx_cons, each, pure_bind, ih, pure_bind]
    intro value
    simp only [parallel, sequential, certain]
  | cons phase phases ih =>
    intro value
    have rounds := each_rounds (states.mapIdx (step phase))
      (fun row => sequential (fun phase => step phase row) phases) value
    rw [List.mapIdx_mapIdx, expect_bind] at rounds
    rw [parallel, expect_bind]
    simp only [ih _ value]
    exact rounds

end product

end Law

end SpecBlock
