import Mathlib.Data.List.Basic
import Mathlib.Data.List.TakeWhile
import Mathlib.Order.Basic

/-!
# Greedy autoregressive decoding

A target model is a function from a token sequence to its next token. Plain
decoding appends one such token at a time and stops after the first stop token
or at a length limit. A list of tokens follows the target when each of its
tokens is the target's choice for everything before it; a run that stops for
either reason is then exactly the plain decoding.

Tokens and contexts are arbitrary, and nothing here mentions drafting.
-/

namespace SpecBlock.Autoregressive

universe u
variable {τ : Type u}

/-- Plain decoding: one token per step, the stop token included. -/
def decode (next : List τ → τ) (stop : τ → Bool) : List τ → Nat → List τ
  | _, 0 => []
  | context, limit + 1 =>
      if stop (next context) then [next context]
      else next context :: decode next stop (context ++ [next context]) limit

/-- Each token is the target's choice after the context and its predecessors. -/
def Follows (next : List τ → τ) : List τ → List τ → Prop
  | _, [] => True
  | context, token :: rest => token = next context ∧ Follows next (context ++ [token]) rest

/-- Following a concatenation is following its parts in sequence. -/
theorem follows_append (next : List τ → τ) (context front back : List τ) :
    Follows next context (front ++ back) ↔
      Follows next context front ∧ Follows next (context ++ front) back := by
  induction front generalizing context with
  | nil => simp [Follows]
  | cons token rest ih =>
    simp only [List.cons_append, Follows, ih, List.append_assoc,
      List.nil_append, and_assoc]

theorem follows_take (next : List τ → τ) (context tokens : List τ) (count : Nat)
    (follows : Follows next context tokens) : Follows next context (tokens.take count) := by
  rw [← List.take_append_drop count tokens, follows_append] at follows
  exact follows.1

/-- Following is reading the target's choice at every position. -/
theorem follows_iff_getElem (next : List τ → τ) (context tokens : List τ) :
    Follows next context tokens ↔
      ∀ position token, tokens[position]? = some token →
        token = next (context ++ tokens.take position) := by
  induction tokens generalizing context with
  | nil => simp [Follows]
  | cons first rest ih =>
    rw [Follows, ih]
    constructor
    · rintro ⟨chosen, later⟩ position token read
      cases position with
      | zero => simpa [← chosen] using read.symm
      | succ position => simpa using later position token (by simpa using read)
    · intro all
      refine ⟨by simpa using all 0 first rfl, ?_⟩
      intro position token read
      simpa using all (position + 1) token (by simpa using read)

theorem follows_unique (next : List τ → τ) (context left right : List τ)
    (leftFollows : Follows next context left) (rightFollows : Follows next context right)
    (lengths : left.length = right.length) : left = right := by
  induction left generalizing context right with
  | nil => exact (List.length_eq_zero_iff.mp lengths.symm).symm
  | cons token rest ih =>
    cases right with
    | nil => simp at lengths
    | cons other tail =>
      obtain ⟨rfl, restFollows⟩ := leftFollows
      obtain ⟨rfl, tailFollows⟩ := rightFollows
      rw [ih _ tail restFollows tailFollows (Nat.succ.inj lengths)]

/-- A constant list follows a target that keeps repeating its token. -/
theorem follows_replicate (next : List τ → τ) (context : List τ) (token : τ) (count : Nat) :
    Follows next context (List.replicate count token) ↔
      ∀ repeats < count, next (context ++ List.replicate repeats token) = token := by
  rw [follows_iff_getElem]
  constructor
  · intro follows repeats below
    have here := follows repeats token (by simp [below])
    rw [List.take_replicate, Nat.min_eq_left below.le] at here
    exact here.symm
  · intro stays position read atRead
    obtain ⟨below, rfl⟩ : position < count ∧ token = read := by
      simpa [List.getElem?_replicate] using atRead
    rw [List.take_replicate, Nat.min_eq_left below.le]
    exact (stays position below).symm

/-- A list equal to its own shift behind a token repeats that token. -/
theorem replicate_of_shift (token : τ) (tokens : List τ)
    (shifted : tokens = (token :: tokens).take tokens.length) :
    tokens = List.replicate tokens.length token := by
  induction tokens with
  | nil => rfl
  | cons first rest ih =>
    simp only [List.length_cons, List.take_succ_cons, List.cons.injEq] at shifted
    obtain ⟨rfl, tail⟩ := shifted
    rw [List.length_cons, List.replicate_succ, ← ih tail]

theorem decode_follows (next : List τ → τ) (stop : τ → Bool) (context : List τ) (limit : Nat) :
    Follows next context (decode next stop context limit) := by
  induction limit generalizing context with
  | zero => trivial
  | succ limit ih =>
    by_cases stopped : stop (next context) = true
    · simp [decode, stopped, Follows]
    · simp [decode, stopped, Follows, ih]

/-- A following list with no stop token before its last one, complete because
it is full or ends with a stop token, is the plain decoding. -/
theorem decode_complete (next : List τ → τ) (stop : τ → Bool) (context front : List τ)
    (last : τ) (limit : Nat) (follows : Follows next context (front ++ [last]))
    (running : ∀ token ∈ front, stop token = false) (bounded : front.length < limit)
    (complete : front.length + 1 = limit ∨ stop last = true) :
    decode next stop context limit = front ++ [last] := by
  induction front generalizing context limit with
  | nil =>
    obtain ⟨remaining, rfl⟩ : ∃ remaining, limit = remaining + 1 :=
      ⟨limit - 1, by simp at bounded; omega⟩
    obtain ⟨rfl, -⟩ := follows
    by_cases stopped : stop (next context) = true
    · simp [decode, stopped]
    · have empty : remaining = 0 := by
        rcases complete with full | atStop
        · simpa using full.symm
        · exact absurd atStop stopped
      simp [decode, stopped, empty]
  | cons token rest ih =>
    obtain ⟨remaining, rfl⟩ : ∃ remaining, limit = remaining + 1 :=
      ⟨limit - 1, by simp only [List.length_cons] at bounded; omega⟩
    obtain ⟨rfl, tailFollows⟩ := follows
    have unstopped : stop (next context) = false := running _ List.mem_cons_self
    have tail := ih _ remaining tailFollows
      (fun token member => running token (List.mem_cons_of_mem _ member))
      (by simpa using bounded) (by simpa using complete)
    simp [decode, unstopped, tail]

/-- A following list without a stop token, within the limit, starts the plain decoding. -/
theorem isPrefix_decode (next : List τ → τ) (stop : τ → Bool) (context tokens : List τ) (limit : Nat)
    (follows : Follows next context tokens) (running : ∀ token ∈ tokens, stop token = false)
    (bounded : tokens.length ≤ limit) : tokens <+: decode next stop context limit := by
  induction tokens generalizing context limit with
  | nil => exact List.nil_prefix
  | cons token rest ih =>
    obtain ⟨remaining, rfl⟩ : ∃ remaining, limit = remaining + 1 :=
      ⟨limit - 1, by simp only [List.length_cons] at bounded; omega⟩
    obtain ⟨rfl, restFollows⟩ := follows
    have unstopped : stop (next context) = false := running _ List.mem_cons_self
    rw [decode, if_neg (by simp [unstopped]), List.prefix_cons_inj]
    exact ih _ remaining restFollows
      (fun token member => running token (List.mem_cons_of_mem _ member)) (Nat.le_of_succ_le_succ bounded)

end SpecBlock.Autoregressive
