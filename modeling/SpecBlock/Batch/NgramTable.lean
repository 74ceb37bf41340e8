import Mathlib.Algebra.BigOperators.Group.Finset.Basic
import Mathlib.Algebra.Ring.Nat
import SpecBlock.Foundation.Dictionary
import SpecBlock.Batch.Generation

/-!
# The online table of trigrams

With `NGRAM_CACHE=1` the algorithm counts which token followed which two. After a round has put its
tokens behind a request's output, `_update_ngram_cache` walks a window of the whole sequence that
starts two tokens before the first new one, and raises one count for each trigram in it. The table
belongs to the algorithm: all requests of a batch count into it.

The windows of the rounds meet without overlap: a trigram is counted in the round that brought its
last token. So the counts are those of the finished sequence, whatever the rounds were.
-/

namespace SpecBlock.Batch

open Dict

/-- What the algorithm keeps: `_ngram_cache_on`, `_ngram_table` and `_ngram_prev2`. -/
structure NgramCache where
  on : Bool
  table : Dict (Nat × Nat) (Dict Nat Nat)
  prev2 : Int × Int

/-- The state of a new algorithm, and after `reset_after_warmup`. -/
def NgramCache.fresh (on : Bool) : NgramCache := ⟨on, .empty, (-1, -1)⟩

/-- `tuple(full[-2:]) if len(full) >= 2 else (-1, -1)`. -/
def lastTwo (full : List Nat) : Int × Int :=
  if 2 ≤ full.length then ((full.getD (full.length - 2) 0 : Nat), (full.getD (full.length - 1) 0 : Nat))
  else (-1, -1)

/-- The prompt and the output of a request. -/
def RequestState.full (state : RequestState) : List Nat := state.promptIds ++ state.outputTokens

/-- `_set_request_ngram_context`: the two tokens that the table is asked about while the request drafts. -/
def setRequestNgramContext (cache : NgramCache) (state : RequestState) : NgramCache :=
  if cache.on then { cache with prev2 := lastTwo state.full } else cache

/-- The loop body: raise the count of the trigram at an index. -/
def countTrigram (full : List Nat) (ngramTable : Dict (Nat × Nat) (Dict Nat Nat)) (idx : Nat) :
    Dict (Nat × Nat) (Dict Nat Nat) :=
  let a := full.getD idx 0
  let b := full.getD (idx + 1) 0
  let c := full.getD (idx + 2) 0
  let table := ngramTable.getD (a, b) .empty
  ngramTable.set (a, b) (table.set c (table.getD c 0 + 1))

/-- `_update_ngram_cache`: counts the trigrams that end in the tokens behind the old output, each once. -/
def updateNgramCache (cache : NgramCache) (state : RequestState) (oldOutputLen : Nat) : NgramCache :=
  if cache.on then
    let full := state.full
    let firstNew := state.promptIds.length + oldOutputLen
    -- a difference of natural numbers stops at zero, as `max(0, first_new - 2)` does
    let start := firstNew - 2
    { cache with
      table := (List.range' start (full.length - 2 - start)).foldl (countTrigram full) cache.table
      prev2 := lastTwo full }
  else cache

/-- A request once a round has put tokens behind its output. -/
def RequestState.extend (state : RequestState) (taken : List Nat) : RequestState :=
  { state with outputTokens := state.outputTokens ++ taken }

/-- One request's share of a round, as far as the table goes. -/
def ngramRound (run : NgramCache × RequestState) (taken : List Nat) : NgramCache × RequestState :=
  (updateNgramCache run.1 (run.2.extend taken) run.2.outputTokens.length, run.2.extend taken)

/-- How often a table has counted a trigram. -/
def counted (ngramTable : Dict (Nat × Nat) (Dict Nat Nat)) (a b c : Nat) : Nat :=
  (ngramTable.getD (a, b) .empty).getD c 0

/-- Three tokens lie one behind the other from an index on. -/
def TrigramAt (full : List Nat) (a b c idx : Nat) : Prop :=
  full[idx]? = some a ∧ full[idx + 1]? = some b ∧ full[idx + 2]? = some c

instance (full : List Nat) (a b c idx : Nat) : Decidable (TrigramAt full a b c idx) :=
  inferInstanceAs (Decidable (_ ∧ _ ∧ _))

/-- The number of indices at which a trigram lies whose last token is not among the first ones. -/
def trigrams (full : List Nat) (first a b c : Nat) : Nat :=
  (List.range full.length).countP (fun idx => decide (TrigramAt full a b c idx ∧ first ≤ idx + 2))

section counting

variable {full : List Nat} {a b c : Nat}

theorem TrigramAt.inside {idx : Nat} (here : TrigramAt full a b c idx) : idx + 2 < full.length :=
  (List.getElem?_eq_some_iff.mp here.2.2).1

/-- A token inside the sequence, with the default never used. -/
theorem getD_eq_iff {idx token : Nat} (inside : idx < full.length) :
    full[idx]? = some token ↔ full.getD idx 0 = token := by
  rw [List.getD_eq_getElem?_getD, List.getElem?_eq_getElem inside, Option.getD_some, Option.some.injEq]

theorem trigramAt_iff {idx : Nat} (inside : idx + 2 < full.length) : TrigramAt full a b c idx ↔
    full.getD idx 0 = a ∧ full.getD (idx + 1) 0 = b ∧ full.getD (idx + 2) 0 = c := by
  rw [TrigramAt, getD_eq_iff (by omega), getD_eq_iff (by omega), getD_eq_iff inside]

/-- The loop body raises the count of the trigram it reads and no other. -/
theorem counted_countTrigram (table : Dict (Nat × Nat) (Dict Nat Nat)) {idx : Nat}
    (inside : idx + 2 < full.length) : counted (countTrigram full table idx) a b c =
      counted table a b c + if TrigramAt full a b c idx then 1 else 0 := by
  simp only [counted, countTrigram, getD_set, trigramAt_iff inside, Prod.mk.injEq]
  by_cases pair : a = full.getD idx 0 ∧ b = full.getD (idx + 1) 0
  · obtain ⟨rfl, rfl⟩ := pair
    rw [if_pos ⟨rfl, rfl⟩, getD_set]
    by_cases last : c = full.getD (idx + 2) 0
    · rw [if_pos last, if_pos ⟨rfl, rfl, last.symm⟩, last]
    · rw [if_neg last, if_neg fun same => last same.2.2.symm]
      rfl
  · rw [if_neg pair, if_neg fun same => pair ⟨same.1.symm, same.2.1.symm⟩, Nat.add_zero]

/-- A walk raises the count of a trigram once for every index at which it lies. -/
theorem counted_walk (table : Dict (Nat × Nat) (Dict Nat Nat)) (indices : List Nat)
    (inside : ∀ idx ∈ indices, idx + 2 < full.length) :
    counted (indices.foldl (countTrigram full) table) a b c =
      counted table a b c + indices.countP (fun idx => decide (TrigramAt full a b c idx)) := by
  induction indices generalizing table with
  | nil => rfl
  | cons idx rest ih =>
    rw [List.foldl_cons, ih _ fun other member =>
        inside other (List.mem_cons_of_mem _ member),
      counted_countTrigram table (inside idx List.mem_cons_self), List.countP_cons]
    simp only [decide_eq_true_eq]
    omega

/-- Two lists without repetitions count alike what they find alike. -/
theorem countP_eq_of_found {first second : List Nat} (once : first.Nodup) (onceToo : second.Nodup)
    {p q : Nat → Prop} [DecidablePred p] [DecidablePred q]
    (found : ∀ idx, idx ∈ first ∧ p idx ↔ idx ∈ second ∧ q idx) :
    first.countP (fun idx => decide (p idx)) = second.countP (fun idx => decide (q idx)) := by
  rw [List.countP_eq_length_filter, List.countP_eq_length_filter]
  refine List.Perm.length_eq ((List.perm_ext_iff_of_nodup (once.filter _) (onceToo.filter _)).mpr ?_)
  intro idx
  simpa using found idx

/-- The window of a round holds the trigrams whose last token is new. -/
theorem window_trigrams (full : List Nat) (first a b c : Nat) :
    (List.range' (first - 2) (full.length - 2 - (first - 2))).countP
        (fun idx => decide (TrigramAt full a b c idx)) = trigrams full first a b c := by
  refine countP_eq_of_found List.nodup_range' List.nodup_range fun idx => ?_
  rw [List.mem_range'_1, List.mem_range]
  constructor
  · rintro ⟨window, here⟩
    exact ⟨by have := here.inside; omega, here, by omega⟩
  · rintro ⟨_, here, last⟩
    exact ⟨by have := here.inside; omega, here⟩

/-- A trigram within the first tokens is one of the sequence. -/
theorem trigramAt_append {seen taken : List Nat} {idx : Nat} (inside : idx + 2 < seen.length) :
    TrigramAt (seen ++ taken) a b c idx ↔ TrigramAt seen a b c idx := by
  rw [TrigramAt, TrigramAt, List.getElem?_append_left (by omega),
    List.getElem?_append_left (by omega), List.getElem?_append_left inside]

/-- The trigrams that end behind a point are those that end before a later point and those that end
behind it. -/
theorem trigrams_append (seen taken : List Nat) {first : Nat} (early : first ≤ seen.length) :
    trigrams (seen ++ taken) first a b c =
      trigrams seen first a b c + trigrams (seen ++ taken) seen.length a b c := by
  have split := List.countP_eq_countP_filter_add (List.range (seen ++ taken).length)
    (fun idx => decide (TrigramAt (seen ++ taken) a b c idx ∧ first ≤ idx + 2))
    (fun idx => decide (idx + 2 < seen.length))
  rw [trigrams, split]
  congr 1
  · refine countP_eq_of_found (List.nodup_range.filter _) List.nodup_range fun idx => ?_
    rw [List.mem_filter, List.mem_range, List.mem_range, List.length_append, decide_eq_true_eq]
    constructor
    · rintro ⟨⟨_, inside⟩, here, last⟩
      exact ⟨by omega, (trigramAt_append inside).mp here, last⟩
    · rintro ⟨_, here, last⟩
      exact ⟨⟨by omega, here.inside⟩, (trigramAt_append here.inside).mpr here, last⟩
  · refine countP_eq_of_found (List.nodup_range.filter _) List.nodup_range fun idx => ?_
    rw [List.mem_filter, Bool.not_eq_true', decide_eq_false_iff_not]
    constructor
    · rintro ⟨⟨member, behind⟩, here, _⟩
      exact ⟨member, here, by omega⟩
    · rintro ⟨member, here, last⟩
      exact ⟨⟨member, by omega⟩, here, by omega⟩

end counting

section rounds

variable {a b c : Nat}

/-- One update adds the trigrams whose last token is new, and remembers the last two tokens. -/
theorem updateNgramCache_counts {cache : NgramCache} (on : cache.on = true) (state : RequestState)
    (oldOutputLen a b c : Nat) :
    (updateNgramCache cache state oldOutputLen).on = true ∧
      counted (updateNgramCache cache state oldOutputLen).table a b c = counted cache.table a b c +
        trigrams state.full (state.promptIds.length + oldOutputLen) a b c ∧
      (updateNgramCache cache state oldOutputLen).prev2 = lastTwo state.full := by
  rw [updateNgramCache, if_pos on]
  refine ⟨on, ?_, rfl⟩
  rw [← window_trigrams]
  refine counted_walk cache.table _ fun idx member => ?_
  rw [List.mem_range'_1] at member
  omega

theorem ngramRound_counts {run : NgramCache × RequestState} (on : run.1.on = true)
    (taken : List Nat) (a b c : Nat) :
    (ngramRound run taken).2.full = run.2.full ++ taken ∧
      counted (ngramRound run taken).1.table a b c =
        counted run.1.table a b c + trigrams (run.2.full ++ taken) run.2.full.length a b c := by
  have whole : (run.2.extend taken).full = run.2.full ++ taken := (List.append_assoc _ _ _).symm
  refine ⟨whole, ?_⟩
  have added := (updateNgramCache_counts on (run.2.extend taken) run.2.outputTokens.length a b c).2.1
  rw [whole] at added
  rw [ngramRound, added, RequestState.full, List.length_append]
  rfl

theorem ngramRound_on {run : NgramCache × RequestState} (on : run.1.on = true) (taken : List Nat) :
    (ngramRound run taken).1.on = true :=
  (updateNgramCache_counts on _ _ 0 0 0).1

theorem trigrams_end (full : List Nat) (a b c : Nat) : trigrams full full.length a b c = 0 := by
  refine List.countP_eq_zero.mpr fun idx _ => ?_
  rw [decide_eq_true_eq]
  rintro ⟨here, behind⟩
  have := here.inside
  omega

theorem ngramRounds_counts {run : NgramCache × RequestState} (on : run.1.on = true)
    (rounds : List (List Nat)) (a b c : Nat) :
    (rounds.foldl ngramRound run).2.full = run.2.full ++ rounds.flatten ∧
      counted (rounds.foldl ngramRound run).1.table a b c = counted run.1.table a b c +
        trigrams (run.2.full ++ rounds.flatten) run.2.full.length a b c := by
  induction rounds generalizing run with
  | nil =>
    rw [List.flatten_nil, List.append_nil, trigrams_end]
    exact ⟨rfl, rfl⟩
  | cons taken rest ih =>
    obtain ⟨whole, added⟩ := ngramRound_counts on taken a b c
    obtain ⟨sequence, counts⟩ := ih (ngramRound_on on taken)
    rw [whole] at sequence counts
    have early : run.2.full.length ≤ (run.2.full ++ taken).length := by
      rw [List.length_append]
      omega
    have meet := @trigrams_append a b c (run.2.full ++ taken) rest.flatten _ early
    rw [List.foldl_cons, sequence, counts, added, List.flatten_cons, ← List.append_assoc, meet]
    exact ⟨rfl, Nat.add_assoc _ _ _⟩

/-- After the last round its update has remembered the last two tokens. -/
theorem ngramRounds_prev2 {run : NgramCache × RequestState} (on : run.1.on = true)
    (rounds : List (List Nat)) (some : rounds ≠ []) :
    (rounds.foldl ngramRound run).1.prev2 = lastTwo (rounds.foldl ngramRound run).2.full := by
  induction rounds generalizing run with
  | nil => exact absurd rfl some
  | cons taken rest ih =>
    rw [List.foldl_cons]
    cases rest with
    | nil => exact (updateNgramCache_counts on _ _ 0 0 0).2.2
    | cons next others => exact ih (ngramRound_on on taken) (List.cons_ne_nil _ _)

/-- A sequence of two tokens or more ends in the two that are remembered. -/
theorem lastTwo_eq {full : List Nat} (long : 2 ≤ full.length) :
    ∃ (front : List Nat) (x y : Nat), full = front ++ [x, y] ∧ lastTwo full = ((x : Int), (y : Int)) := by
  obtain ⟨front, y, rfl⟩ := List.eq_nil_or_concat full |>.resolve_left (by rintro rfl; simp at long)
  obtain ⟨front, x, rfl⟩ := List.eq_nil_or_concat front |>.resolve_left (by rintro rfl; simp at long)
  refine ⟨front, x, y, by simp, ?_⟩
  rw [lastTwo, if_pos long]
  simp

end rounds

/-- What the loop does with the cache when it commits a request's decision. -/
theorem commitRequest_ngram {H : Type} (settings : Settings) (state : RequestState)
    (accepted : Accepted H) (cache : NgramCache) :
    updateNgramCache cache (commitRequest settings state accepted) state.outputTokens.length =
      (ngramRound (cache, state) (takeUntilEos settings.isEos (sliceUpTo accepted.proposed
        ((settings.maxNewTokens : Int) - state.outputTokens.length)))).1 := rfl

section batch

/-- What a batch does with the cache: a draft sets its request's context, a round counts. -/
inductive NgramTurn
  | draft (request : Nat)
  | round (request : Nat) (taken : List Nat)

/-- The request of a turn. -/
def NgramTurn.request : NgramTurn → Nat
  | .draft request => request
  | .round request _ => request

/-- What a turn puts behind a request's tokens: nothing unless it is a round of this request. -/
def NgramTurn.takenFor (request : Nat) : NgramTurn → List Nat
  | .draft _ => []
  | .round other taken => if other = request then taken else []

/-- One turn of a batch. -/
def ngramTurn (run : NgramCache × (Nat → RequestState)) :
    NgramTurn → NgramCache × (Nat → RequestState)
  | .draft request => (setRequestNgramContext run.1 (run.2 request), run.2)
  | .round request taken =>
    let next := ngramRound (run.1, run.2 request) taken
    (next.1, Function.update run.2 request next.2)

/-- What holds after some turns of a batch: a request's tokens are those at the start followed by those of
its own rounds, and the table has counted, for every request, the trigrams that end in the latter. -/
structure NgramCounts (requests : Nat) (cache : NgramCache) (states : Nat → RequestState)
    (turns : List NgramTurn) (run : NgramCache × (Nat → RequestState)) : Prop where
  on : run.1.on = true
  own : ∀ request,
    (run.2 request).full = (states request).full ++ turns.flatMap (NgramTurn.takenFor request)
  counts : ∀ a b c, counted run.1.table a b c = counted cache.table a b c +
    ∑ request ∈ Finset.range requests,
      trigrams (run.2 request).full (states request).full.length a b c

variable {requests : Nat} {cache : NgramCache} {states : Nat → RequestState}
  {turns : List NgramTurn} {run : NgramCache × (Nat → RequestState)}

theorem ngramTurn_own (on : run.1.on = true) (request : Nat) (taken : List Nat) :
    ((ngramTurn run (.round request taken)).2 request).full = (run.2 request).full ++ taken := by
  rw [show (ngramTurn run (.round request taken)).2 request =
    (ngramRound (run.1, run.2 request) taken).2 from Function.update_self ..]
  exact (@ngramRound_counts (run.1, run.2 request) on taken 0 0 0).1

theorem ngramTurn_other (request : Nat) (taken : List Nat) {other : Nat} (different : other ≠ request) :
    (ngramTurn run (.round request taken)).2 other = run.2 other :=
  Function.update_of_ne different _ _

theorem NgramCounts.grown (before : NgramCounts requests cache states turns run) (request : Nat) :
    (states request).full.length ≤ (run.2 request).full.length := by
  rw [before.own, List.length_append]
  exact Nat.le_add_right _ _

theorem NgramCounts.draft (before : NgramCounts requests cache states turns run) (request : Nat) :
    NgramCounts requests cache states (turns ++ [.draft request]) (ngramTurn run (.draft request)) := by
  have same : ngramTurn run (.draft request) =
      ({ run.1 with prev2 := lastTwo (run.2 request).full }, run.2) := by
    rw [ngramTurn, setRequestNgramContext, if_pos before.on]
  rw [same]
  refine ⟨before.on, fun other => ?_, before.counts⟩
  rw [List.flatMap_append, List.flatMap_singleton, NgramTurn.takenFor, List.append_nil]
  exact before.own other

/-- A round counts the trigrams that end in its tokens for its request. -/
theorem NgramCounts.round (before : NgramCounts requests cache states turns run) {request : Nat}
    (inside : request < requests) (taken : List Nat) :
    NgramCounts requests cache states (turns ++ [.round request taken])
      (ngramTurn run (.round request taken)) := by
  refine ⟨ngramRound_on before.on taken, fun other => ?_, fun a b c => ?_⟩
  · rw [List.flatMap_append, List.flatMap_singleton, NgramTurn.takenFor]
    by_cases same : other = request
    · rw [same, ngramTurn_own before.on, before.own, if_pos rfl, List.append_assoc]
    · rw [ngramTurn_other request taken same, before.own, if_neg (Ne.symm same), List.append_nil]
  · have added := (@ngramRound_counts (run.1, run.2 request) before.on taken a b c).2
    have meet := @trigrams_append a b c (run.2 request).full taken _ (before.grown request)
    have others : ∀ other ∈ (Finset.range requests).erase request,
        trigrams ((ngramTurn run (.round request taken)).2 other).full
          (states other).full.length a b c =
        trigrams (run.2 other).full (states other).full.length a b c := by
      intro other member
      rw [ngramTurn_other request taken (Finset.ne_of_mem_erase member)]
    have listed := Finset.mem_range.mpr inside
    have counts := before.counts a b c
    rw [← Finset.add_sum_erase _ _ listed] at counts
    rw [← Finset.add_sum_erase _ _ listed, Finset.sum_congr rfl others, ngramTurn_own before.on, meet]
    refine Eq.trans added ?_
    dsimp only
    rw [counts]
    omega

/-- All requests of a batch count into one table: however their rounds and drafts follow each other, each
request's tokens grow by those of its own rounds, and the table gains for each request the trigrams that
end in them. -/
theorem ngram_batch_counts (on : cache.on = true) (turns : List NgramTurn)
    (inside : ∀ turn ∈ turns, turn.request < requests) :
    NgramCounts requests cache states turns (turns.foldl ngramTurn (cache, states)) := by
  induction turns using List.reverseRecOn with
  | nil =>
    refine ⟨on, fun _ => (List.append_nil _).symm, fun a b c => ?_⟩
    simp only [List.foldl_nil, trigrams_end, Finset.sum_const_zero, Nat.add_zero]
  | append_singleton turns turn ih =>
    have before := ih fun other member =>
      inside other (List.mem_append_left _ member)
    have here := inside turn (List.mem_append_right _ List.mem_cons_self)
    rw [List.foldl_append, List.foldl_cons, List.foldl_nil]
    cases turn with
    | draft request => exact before.draft request
    | round request taken => exact before.round here taken

/-- Two requests in turns: the first counts once, the second twice. -/
theorem ngram_batch_counts_two :
    counted ([.draft 0, .round 0 [5, 6], .draft 1, .round 1 [5], .round 0 [7], .round 1 [5]].foldl ngramTurn
      (NgramCache.fresh true, fun _ => prefilled ⟨8, [], 0, 9, 1⟩ [4, 5] 5)).1.table 5 5 5 = 3 :=
  ((@ngram_batch_counts 2 (NgramCache.fresh true) (fun _ => prefilled ⟨8, [], 0, 9, 1⟩ [4, 5] 5) rfl
    [.draft 0, .round 0 [5, 6], .draft 1, .round 1 [5], .round 0 [7], .round 1 [5]] (by decide)).counts
    5 5 5).trans (by decide)

end batch

/-- However a request's tokens are split into rounds, the table counts each trigram once for each
index at which it lies with its last token among those of the rounds, and the last two tokens are
remembered. -/
theorem ngram_counts_once {cache : NgramCache} (on : cache.on = true) (state : RequestState)
    (rounds : List (List Nat)) :
    let after := rounds.foldl ngramRound (cache, state)
    let full := state.promptIds ++ state.outputTokens ++ rounds.flatten
    after.2.full = full ∧
      (∀ a b c, counted after.1.table a b c = counted cache.table a b c +
        trigrams full (state.promptIds.length + state.outputTokens.length) a b c) ∧
      (∀ others : List (List Nat), others.flatten = rounds.flatten → ∀ a b c,
        counted (others.foldl ngramRound (cache, state)).1.table a b c =
          counted after.1.table a b c) ∧
      (rounds ≠ [] → 2 ≤ full.length →
        ∃ (front : List Nat) (x y : Nat), full = front ++ [x, y] ∧ after.1.prev2 = ((x : Int), (y : Int))) := by
  intro after full
  have start : (cache, state).2.full.length = state.promptIds.length + state.outputTokens.length :=
    List.length_append
  have counts (rounds : List (List Nat)) (a b c : Nat) :=
    @ngramRounds_counts (cache, state) on rounds a b c
  have sequence : after.2.full = full := (counts rounds 0 0 0).1
  refine ⟨sequence, fun a b c => ?_, fun others same a b c => ?_, fun some long => ?_⟩
  · rw [← start]
    exact (counts rounds a b c).2
  · rw [(counts others a b c).2, same]
    exact (counts rounds a b c).2.symm
  · rw [@ngramRounds_prev2 (cache, state) on rounds some, sequence]
    exact lastTwo_eq long

/-- A prompt of two tokens, its first token, and two rounds: the trigram that runs across them is
counted three times. -/
theorem ngram_counts_once_repeat :
    counted ([[5], [5, 5, 6]].foldl ngramRound (NgramCache.fresh true,
      prefilled ⟨8, [], 0, 9, 1⟩ [4, 5] 5)).1.table 5 5 5 = 3 :=
  ((@ngram_counts_once (NgramCache.fresh true) rfl (prefilled ⟨8, [], 0, 9, 1⟩ [4, 5] 5)
    [[5], [5, 5, 6]]).2.1 5 5 5).trans (by decide)

end SpecBlock.Batch
