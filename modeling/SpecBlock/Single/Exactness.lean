import SpecBlock.Single.Generation

/-!
# When the single-request loop is lossless

The returned ids start with the second generated token, and tokens after a stop
inside a round are kept. They are the plain decoding only where neither shows:
the target repeats its first token for as long as the budget lasts.
-/

namespace SpecBlock.Single

open Autoregressive Batch

variable (settings : Settings) (next : List Nat → Nat) (prompt : List Nat)

/-- The target repeats its first token up to and including the given position. -/
def Repeats (count : Nat) : Prop :=
  ∀ repeats ≤ count, next (prompt ++ List.replicate repeats (next prompt)) = next prompt

variable {settings next prompt}

/-- The continuation after the first token is the plain decoding exactly when the
target repeats itself and does not stop early. Both lists follow the target, one
of them from the first token on, so equality makes the output its own shift. -/
theorem output_eq_decode_iff (output : List Nat) (nonempty : output ≠ [])
    (started : next prompt ≠ settings.eosTokenId)
    (bounded : output.length ≤ settings.maxNewTokens)
    (follows : Follows next (prompt ++ [next prompt]) output)
    (ended : output.length = settings.maxNewTokens ∨ settings.eosTokenId ∈ output) :
    output = decode next settings.isEos prompt settings.maxNewTokens ↔
      Repeats next prompt settings.maxNewTokens ∧
        (settings.isEos (next prompt) = false ∨ settings.maxNewTokens = 1) := by
  have behind : Follows next prompt (next prompt :: output) := ⟨rfl, follows⟩
  constructor
  · intro equal
    have decoded : Follows next prompt output := equal ▸ decode_follows _ _ _ _
    have shifted : output = (next prompt :: output).take output.length :=
      follows_unique next prompt _ _ decoded (follows_take next _ _ _ behind) (by simp)
    have constant := replicate_of_shift _ _ shifted
    have full : output.length = settings.maxNewTokens := by
      refine ended.resolve_right (fun stopped => ?_)
      rw [constant] at stopped
      exact started (List.eq_of_mem_replicate stopped).symm
    refine ⟨?_, ?_⟩
    · have whole : next prompt :: output =
          List.replicate (settings.maxNewTokens + 1) (next prompt) := by
        rw [← full, List.replicate_succ, ← constant]
      rw [whole, follows_replicate] at behind
      exact fun repeats within => behind repeats (Nat.lt_succ_of_le within)
    · by_cases stopped : settings.isEos (next prompt) = true
      · right
        obtain ⟨limit, shape⟩ : ∃ limit, settings.maxNewTokens = limit + 1 :=
          ⟨settings.maxNewTokens - 1, by have := List.length_pos_iff.mpr nonempty; omega⟩
        rw [shape, decode, if_pos stopped] at equal
        rw [← full, equal, List.length_singleton]
      · exact .inl (by simpa using stopped)
  · rintro ⟨repeats, unstopped⟩
    have constant : output = List.replicate output.length (next prompt) := by
      apply follows_unique next (prompt ++ [next prompt]) _ _ follows _ (by simp)
      rw [follows_replicate]
      intro count below
      rw [List.append_assoc, List.singleton_append, ← List.replicate_succ]
      exact repeats (count + 1) (by omega)
    have full : output.length = settings.maxNewTokens := by
      refine ended.resolve_right (fun stopped => ?_)
      rw [constant] at stopped
      exact started (List.eq_of_mem_replicate stopped).symm
    obtain ⟨limit, shape⟩ : ∃ limit, settings.maxNewTokens = limit + 1 :=
      ⟨settings.maxNewTokens - 1, by have := List.length_pos_iff.mpr nonempty; omega⟩
    have snoc : output = List.replicate limit (next prompt) ++ [next prompt] := by
      rw [constant, full, shape, List.replicate_succ']
    rw [snoc]
    refine (decode_complete next settings.isEos prompt _ _ _ ?_ ?_ ?_ (.inl ?_)).symm
    · rw [← snoc, constant, follows_replicate]
      exact fun count below => repeats count (by omega)
    · intro token member
      obtain rfl := List.eq_of_mem_replicate member
      refine unstopped.resolve_right (fun single => ?_)
      have empty : limit = 0 := by omega
      simp [empty] at member
    · rw [List.length_replicate]
      omega
    · rw [List.length_replicate, shape]

/-- The single-request loop reports the plain decoding exactly when the first
token is not the tokenizer's stop, the target repeats it throughout the budget,
and no other stop token cuts the plain decoding short. -/
theorem generateOnce_exact (settings : Settings) (next : List Nat → Nat) (target : Target)
    (draft : Draft) (fuel : Nat) (prompt : List Nat) (limit : 1 ≤ settings.maxNewTokens)
    (enough : settings.maxNewTokens ≤ fuel) (faithful : target.Faithful next)
    (trees : draft.WellFormed) :
    (∃ total, generateOnce settings target draft fuel prompt =
        .ok ⟨total, some (decode next settings.isEos prompt settings.maxNewTokens)⟩) ↔
      next prompt ≠ settings.eosTokenId ∧ Repeats next prompt settings.maxNewTokens ∧
        (settings.isEos (next prompt) = false ∨ settings.maxNewTokens = 1) := by
  by_cases started : next prompt = settings.eosTokenId
  · simp [generateOnce, faithful.prefill, started]
  · obtain ⟨output, generated, nonempty, bounded, follows, ended⟩ :=
      generateOnce_output fuel limit enough faithful trees started
    have condition := output_eq_decode_iff output nonempty started bounded follows ended
    rw [generated]
    constructor
    · rintro ⟨total, same⟩
      have fields := Response.mk.inj (Except.ok.inj same)
      exact ⟨started, condition.mp (Option.some.inj fields.2)⟩
    · rintro ⟨-, repeating⟩
      exact ⟨output.length, by rw [condition.mpr repeating]⟩

/-- A target that computes every node's choice from the cache and the root path. -/
def Target.honest (next : List Nat → Nat) : Target where
  prefill := next
  argmax _ cached tree node := ((tree.rootPath node).map (fun path =>
    next (cached ++ tree.tokensAt path))).getD 0

theorem Target.honest_faithful (next : List Nat → Nat) : (Target.honest next).Faithful next := by
  refine ⟨fun _ => rfl, ?_⟩
  intro iteration cached tree node path spelled
  simp [honest, spelled]

/-- A drafter that always guesses the same token after the current one. -/
def guess (token : Nat) : Draft := fun _ current => Tree.pair current token

theorem guess_wellFormed (token : Nat) : (guess token).WellFormed :=
  fun _ current => Tree.pair_wellFormed current token

/-- A constant target is decoded as it should be. -/
theorem generateOnce_exact_constant :
    ∃ total, generateOnce ⟨2, 9, []⟩ (Target.honest (fun _ => 5)) (guess 5) 2 [3, 1] =
      .ok ⟨total, some (decode (fun _ => 5) (Settings.isEos ⟨2, 9, []⟩) [3, 1] 2)⟩ :=
  (generateOnce_exact ⟨2, 9, []⟩ (fun _ => 5) (Target.honest _) (guess 5) 2 [3, 1] (by decide)
    (by decide) (Target.honest_faithful _) (guess_wellFormed 5)).mpr
    ⟨by decide, fun _ _ => rfl, .inl (by decide)⟩

/-- The prompt `[3, 1]` continues with 4 and 8; the loop reports 8 and 5. -/
theorem generateOnce_drops_first_token :
    (Target.honest (fun context => context.sum % 11)).Faithful (fun context => context.sum % 11) ∧
      (guess 4).WellFormed ∧
      generateOnce ⟨2, 9, []⟩ (Target.honest (fun context => context.sum % 11)) (guess 4) 2 [3, 1] =
        .ok ⟨2, some [8, 5]⟩ ∧
      decode (fun context => context.sum % 11) (Settings.isEos ⟨2, 9, []⟩) [3, 1] 2 = [4, 8] :=
  ⟨Target.honest_faithful _, guess_wellFormed 4, by decide, by decide⟩

end SpecBlock.Single
