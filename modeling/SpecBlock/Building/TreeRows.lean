import Mathlib.Algebra.Ring.Nat
import Mathlib.Order.Defs.LinearOrder
import SpecBlock.Foundation.Segments

/-!
# Rows of a growing tree

A tree grows in six buffers of equal capacity, always written together: a row has a token, the
parent's index with `-1` for a child of the root, the log-probability of the path to it, the rank
predicted for its slot, and the block and slot it comes from. A pending row says where the next
block goes on: the slot whose hidden state it starts from, the token fed, how many slots of the
cached block are valid, and the node it hangs below.

How many children a slot gets depends on the rank predicted for it and, in the adaptive modes,
on the probability of the greedy token. The probability is only ever compared with constants;
the comparison is a parameter, in hundredths.
-/

namespace SpecBlock.Building

/-- A row of the tree buffers. -/
structure TreeRow (S : Type) where
  token : Nat
  parent : Int
  lp : S
  rank : Nat
  block : Nat
  slot : Nat
  deriving DecidableEq, Repr

/-- A row of the pending buffers. -/
structure PendRow (S : Type) where
  hiddenSlot : Nat
  inputId : Nat
  tttValid : Nat
  nodeIndex : Nat
  cumLp : S
  deriving DecidableEq, Repr

/-- The scalar arguments of the kernels, and whether the probability of a log-probability is at
least so many hundredths. -/
structure BuildParams (S : Type) where
  beamWidth : Nat
  K : Nat
  maxTopk : Nat
  giveUpClass : Nat
  adaptiveSlot0 : Nat
  adaptiveAll : Nat
  atLeast : S → Nat → Bool

/-- What block 1 is built from, as it lies in memory: the tables of the best tokens have a row of
`maxTopk` columns for each slot. -/
structure Block1Inputs (S : Type) where
  rankPreds : Nat → Nat
  greedyTarget : Nat → Nat
  greedyLps : Nat → S
  allTopTarget : Nat → Nat
  allTopLps : Nat → S
  rankSlotTopkTable : Nat → Nat

/-- What the next block is built from, as it lies in memory: a row of slots for each leaf. -/
structure BfsInputs (S : Type) where
  allRankPreds : Nat → Nat
  allGreedyTarget : Nat → Nat
  allGreedyLps : Nat → S
  topTargetAll : Nat → Nat
  topLpsAll : Nat → S
  pendCumLps : Nat → S
  pendNodeIndices : Nat → Nat
  rankSlotTopkTable : Nat → Nat

/-- `apply_adaptive_slot0`: how many children the first slot gets. The surer its token is, the
fewer; the two strictest modes leave a very sure slot the greedy child only. Unknown modes count as
the last one. -/
def applyAdaptiveSlot0 (mode : Nat) (atLeast : Nat → Bool) (bw : Nat) : Nat :=
  if mode = 0 then bw
  else if mode = 1 then
    if atLeast 90 then min bw 3
    else if atLeast 80 then min bw 5
    else if atLeast 60 then min bw 8
    else bw
  else if mode = 2 then
    if atLeast 95 then min bw 2
    else if atLeast 85 then min bw 4
    else if atLeast 60 then min bw 7
    else bw
  else if mode = 3 then
    if atLeast 95 then 1
    else if atLeast 90 then min bw 2
    else if atLeast 80 then min bw 4
    else if atLeast 60 then min bw 7
    else bw
  else
    if atLeast 90 then 1
    else if atLeast 80 then min bw 3
    else if atLeast 60 then min bw 6
    else bw

/-- `apply_adaptive_all`: the same for the other slots, from what the table has for their ranks.
Only the aggressive mode cuts a slot down to its greedy child. -/
def applyAdaptiveAll (mode : Nat) (atLeast : Nat → Bool) (baseTopk : Nat) : Nat :=
  if mode = 0 then baseTopk
  else if mode = 1 then
    if atLeast 95 then min baseTopk 2
    else if atLeast 85 then min baseTopk 3
    else baseTopk
  else
    if atLeast 90 then 1
    else if atLeast 70 then min baseTopk 2
    else if atLeast 50 then min baseTopk 3
    else baseTopk

/-- The rule of slot 0 gives no more than the beam width, or the greedy child alone. -/
theorem applyAdaptiveSlot0_le (mode : Nat) (atLeast : Nat → Bool) (bw : Nat) :
    applyAdaptiveSlot0 mode atLeast bw ≤ max bw 1 := by
  unfold applyAdaptiveSlot0
  split_ifs <;> omega

/-- The rule of the other slots gives no more than the table, or the greedy child alone. -/
theorem applyAdaptiveAll_le (mode : Nat) (atLeast : Nat → Bool) (baseTopk : Nat) :
    applyAdaptiveAll mode atLeast baseTopk ≤ max baseTopk 1 := by
  unfold applyAdaptiveAll
  split_ifs <;> omega

end SpecBlock.Building
