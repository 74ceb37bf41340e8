import Mathlib.Data.List.Induction
import Mathlib.Data.List.Sort
import SpecBlock.Foundation.Rows

/-!
# Causal networks over a cache

A causal network answers queries. A query carries a token, a position and the
cache entries it sees, in the order of the cache; the network leaves an entry of
its own for it and chooses a token. Run over a plain sequence, each token sees
the entries of all tokens before it: these entries are the sequence's chain, and
the last token's choice is the next token.

Queries can also be staged side by side behind a cache under a mask. A staged
query that sees exactly the entries of a chain, at the position behind it, is
answered as the chain's next token is, whatever stands in the columns it does not
see. Tokens and entries are arbitrary.
-/

namespace SpecBlock.Causal

universe u v
variable {τ : Type u} {ε : Type v}

/-- What the network answers: a token at a position, the entries before it that it sees, and whether it
sees its own. -/
structure Query (τ : Type u) (ε : Type v) where
  token : τ
  position : Nat
  seen : List ε
  own : Bool

/-- A network leaves an entry for each query and chooses a token. -/
structure Network (τ : Type u) (ε : Type v) where
  entry : Query τ ε → ε
  choice : Query τ ε → τ

/-- The query of the token behind a sequence of entries. -/
def behind (entries : List ε) (token : τ) : Query τ ε := ⟨token, entries.length, entries, true⟩

/-- Entries of the columns that a mask shows, in their order. -/
def visibleEntries (mask : Nat → Bool) (columns : List ε) : List ε :=
  Rows.gather ((List.range columns.length).filter mask) columns

namespace Network

variable (net : Network τ ε)

/-- The entries of a sequence, each token behind all before it. -/
def chain (tokens : List τ) : List ε :=
  tokens.foldl (fun entries token => entries ++ [net.entry (behind entries token)]) []

/-- The choice behind a sequence's last token. -/
def next [Inhabited τ] (tokens : List τ) : τ :=
  net.choice (behind (net.chain tokens.dropLast) (tokens.getLastD default))

/-- The queries of a sequence, each token behind all before it. -/
def plainQueries (tokens : List τ) : List (Query τ ε) :=
  tokens.mapIdx (fun place token => behind (net.chain (tokens.take place)) token)

/-- Queries staged behind a cache, numbered from the given one on. Each sees what the mask shows it of the
cache and of the queries staged before it, and itself if the mask says so. -/
def stage (visible : Nat → Nat → Bool) : Nat → List ε → List (τ × Nat) → List (Query τ ε)
  | _, _, [] => []
  | number, columns, (token, position) :: rest =>
    let query : Query τ ε :=
      ⟨token, position, visibleEntries (visible number) columns, visible number columns.length⟩
    query :: stage visible (number + 1) (columns ++ [net.entry query]) rest

/-- The columns after staging. -/
def columnsAfter (visible : Nat → Nat → Bool) (past : List ε) (queries : List (τ × Nat)) : List ε :=
  past ++ (net.stage visible 0 past queries).map net.entry

section chain

@[simp] theorem chain_nil : net.chain [] = [] := rfl

theorem chain_concat (tokens : List τ) (token : τ) :
    net.chain (tokens ++ [token]) = net.chain tokens ++ [net.entry (behind (net.chain tokens) token)] := by
  rw [chain, List.foldl_append]
  rfl

@[simp] theorem chain_length (tokens : List τ) : (net.chain tokens).length = tokens.length := by
  induction tokens using List.reverseRecOn with
  | nil => rfl
  | append_singleton tokens token ih =>
    rw [chain_concat, List.length_append, List.length_append, ih]
    rfl

theorem next_concat [Inhabited τ] (tokens : List τ) (token : τ) :
    net.next (tokens ++ [token]) = net.choice (behind (net.chain tokens) token) := by
  simp [next]

end chain

section visible

/-- A mask that shows exactly some columns, listed in their order, shows their entries. -/
theorem visibleEntries_eq {mask : Nat → Bool} {columns : List ε} {places : List Nat}
    (ordered : places.Pairwise (· < ·)) (inside : ∀ place ∈ places, place < columns.length)
    (shown : ∀ column < columns.length, mask column = true ↔ column ∈ places) :
    visibleEntries mask columns = Rows.gather places columns := by
  have same : (List.range columns.length).filter mask = places := by
    refine List.Pairwise.eq_of_mem_iff (List.pairwise_lt_range.filter mask) ordered fun column => ?_
    rw [List.mem_filter, List.mem_range]
    exact ⟨fun ⟨within, visible⟩ => (shown column within).mp visible,
      fun listed => ⟨inside column listed, (shown column (inside column listed)).mpr listed⟩⟩
  rw [visibleEntries, same]

end visible

section stage

variable (visible : Nat → Nat → Bool)

@[simp] theorem stage_length (number : Nat) (columns : List ε) (queries : List (τ × Nat)) :
    (net.stage visible number columns queries).length = queries.length := by
  induction queries generalizing number columns with
  | nil => rfl
  | cons query rest ih => simp [stage, ih]

@[simp] theorem columnsAfter_length (past : List ε) (queries : List (τ × Nat)) :
    (net.columnsAfter visible past queries).length = past.length + queries.length := by
  simp [columnsAfter]

theorem stage_getElem? (number : Nat) (columns : List ε) (queries : List (τ × Nat)) (place : Nat)
    (token : τ) (position : Nat) (listed : queries[place]? = some (token, position)) :
    (net.stage visible number columns queries)[place]? = some ⟨token, position,
      visibleEntries (visible (number + place))
        ((columns ++ (net.stage visible number columns queries).map net.entry).take (columns.length + place)),
      visible (number + place) (columns.length + place)⟩ := by
  induction queries generalizing number columns place with
  | nil => simp at listed
  | cons query rest ih =>
    cases place with
    | zero =>
      obtain rfl : query = (token, position) := by simpa using listed
      simp [stage]
    | succ place =>
      obtain ⟨first, firstPosition⟩ := query
      have later := ih (number + 1) (columns ++ [net.entry ⟨first, firstPosition,
        visibleEntries (visible number) columns, visible number columns.length⟩]) place (by simpa using listed)
      rw [stage, List.getElem?_cons_succ, later]
      simp [Nat.add_assoc, Nat.add_comm 1 place]

end stage

/-- The listed columns hold the chain of a sequence. -/
def Holds (columns : List ε) (places : List Nat) (tokens : List τ) : Prop :=
  Rows.gather places columns = net.chain tokens ∧
    ∀ place ∈ places, place < columns.length

section holds

variable {net} {visible : Nat → Nat → Bool} {past : List ε} {queries : List (τ × Nat)}

theorem gather_range {columns : List ε} {count : Nat} (enough : count ≤ columns.length) :
    Rows.gather (List.range count) columns = columns.take count := by
  have front : Rows.gather (List.range count) columns =
      Rows.gather (List.range (columns.take count).length) (columns.take count) := by
    rw [List.length_take, Nat.min_eq_left enough]
    refine List.filterMap_congr fun place listed => ?_
    rw [List.getElem?_take, if_pos (List.mem_range.mp listed)]
  exact front.trans (Rows.filterMap_range _)

/-- The first columns of a cache that starts with a chain hold it. -/
theorem holds_range {columns : List ε} {tokens : List τ}
    (start : columns.take tokens.length = net.chain tokens) :
    net.Holds columns (List.range tokens.length) tokens := by
  have enough : tokens.length ≤ columns.length := by
    have lengths := congrArg List.length start
    rw [List.length_take, chain_length] at lengths
    omega
  exact ⟨(gather_range enough).trans start, fun place listed => (List.mem_range.mp listed).trans_le enough⟩

/-- A staged query that sees exactly the columns of a chain, and itself, at the position behind the
chain: it is answered as the next token of the sequence, and its column extends the chain. -/
theorem staged_answer {number position : Nat} {token : τ} {places : List Nat} {tokens : List τ}
    (listed : queries[number]? = some (token, position)) (behindChain : position = tokens.length)
    (holds : net.Holds (net.columnsAfter visible past queries) places tokens)
    (ordered : places.Pairwise (· < ·)) (before : ∀ place ∈ places, place < past.length + number)
    (shown : ∀ column < past.length + number, visible number column = true ↔ column ∈ places)
    (own : visible number (past.length + number) = true) :
    (net.stage visible 0 past queries)[number]? = some (behind (net.chain tokens) token) ∧
      net.Holds (net.columnsAfter visible past queries) (places ++ [past.length + number])
        (tokens ++ [token]) := by
  have within : number < queries.length := (List.getElem?_eq_some_iff.mp listed).1
  have width : ((net.columnsAfter visible past queries).take (past.length + number)).length =
      past.length + number := by
    rw [List.length_take, columnsAfter_length]
    omega
  have entries : visibleEntries (visible number)
      ((net.columnsAfter visible past queries).take (past.length + number)) = net.chain tokens := by
    rw [visibleEntries_eq ordered (fun place member => (before place member).trans_eq width.symm)
      (fun column inside => shown column (inside.trans_eq width)), ← holds.1]
    refine List.filterMap_congr fun place member => ?_
    rw [List.getElem?_take, if_pos (before place member)]
  have answered := net.stage_getElem? visible 0 past queries number token position listed
  rw [Nat.zero_add, ← columnsAfter, entries, own, behindChain, ← net.chain_length tokens] at answered
  refine ⟨answered, ?_, ?_⟩
  · have read : (net.columnsAfter visible past queries)[past.length + number]? =
        some (net.entry (behind (net.chain tokens) token)) := by
      rw [columnsAfter, List.getElem?_append_right (Nat.le_add_right _ _), Nat.add_sub_cancel_left,
        List.getElem?_map, answered]
      rfl
    rw [Rows.gather, List.filterMap_append, ← Rows.gather, holds.1, chain_concat,
      List.filterMap_cons_some read]
    rfl
  · intro place member
    rcases List.mem_append.mp member with earlier | last
    · exact holds.2 place earlier
    · rw [List.mem_singleton.mp last, columnsAfter_length]
      omega

end holds

/-- The columns of a sequence at the front of a cache, and of queries staged behind it. -/
def columnsOf (base length : Nat) (numbers : List Nat) : List Nat :=
  List.range length ++ numbers.map (base + ·)

/-- Staged queries that continue a sequence. The cache starts with the sequence's entries, and each
query, at the position behind the ones before it, sees exactly the sequence's columns, theirs and
its own. -/
structure Continues (visible : Nat → Nat → Bool) (past : List ε) (queries : List (τ × Nat)) (base : Nat)
    (tokens : List τ) (numbers : List Nat) (label : Nat → τ) : Prop where
  width : past.length = base
  long : tokens.length ≤ base
  start : past.take tokens.length = net.chain tokens
  ascending : numbers.Pairwise (· < ·)
  listed : ∀ count number, numbers[count]? = some number →
    queries[number]? = some (label number, tokens.length + count)
  shown : ∀ count number, numbers[count]? = some number → ∀ column ≤ base + number,
    (visible number column = true ↔
      column < tokens.length ∨ base ≤ column ∧ column - base ∈ numbers.take (count + 1))

section continues

variable {net} {visible : Nat → Nat → Bool} {past : List ε} {queries : List (τ × Nat)} {base : Nat}
  {tokens : List τ} {numbers : List Nat} {label : Nat → τ}

theorem mem_columnsOf {length column : Nat} : column ∈ columnsOf base length numbers ↔
    column < length ∨ base ≤ column ∧ column - base ∈ numbers := by
  rw [columnsOf, List.mem_append, List.mem_range, List.mem_map]
  refine or_congr_right ⟨?_, fun ⟨fresh, listed⟩ => ⟨_, listed, Nat.add_sub_cancel' fresh⟩⟩
  rintro ⟨other, listed, rfl⟩
  exact ⟨Nat.le_add_right _ _, by rwa [Nat.add_sub_cancel_left]⟩

theorem columnsOf_ordered {length : Nat} (long : length ≤ base) (ascending : numbers.Pairwise (· < ·)) :
    (columnsOf base length numbers).Pairwise (· < ·) := by
  refine List.pairwise_append.mpr ⟨List.pairwise_lt_range,
    List.pairwise_map.mpr (ascending.imp fun less => Nat.add_lt_add_left less _), ?_⟩
  intro early listed late later
  obtain ⟨_, -, rfl⟩ := List.mem_map.mp later
  exact ((List.mem_range.mp listed).trans_le long).trans_le (Nat.le_add_right _ _)

variable (continues : net.Continues visible past queries base tokens numbers label)

include continues

/-- When the columns so far hold the sequence so far, the next query is answered as the sequence is, and its
column extends it. -/
theorem Continues.step {count number : Nat} (read : numbers[count]? = some number)
    (holds : net.Holds (net.columnsAfter visible past queries)
      (columnsOf base tokens.length (numbers.take count)) (tokens ++ (numbers.take count).map label)) :
    (net.stage visible 0 past queries)[number]? =
        some (behind (net.chain (tokens ++ (numbers.take count).map label)) (label number)) ∧
      net.Holds (net.columnsAfter visible past queries)
        (columnsOf base tokens.length (numbers.take (count + 1)))
        (tokens ++ (numbers.take (count + 1)).map label) := by
  have inside : count < numbers.length := (List.getElem?_eq_some_iff.mp read).1
  have split : numbers.take (count + 1) = numbers.take count ++ [number] := by
    rw [List.take_add_one, read]
    rfl
  have position : tokens.length + count = (tokens ++ (numbers.take count).map label).length := by
    rw [List.length_append, List.length_map, List.length_take, Nat.min_eq_left inside.le]
  have shown := continues.shown count number read
  have ascending := continues.ascending.sublist (List.take_sublist (count + 1) numbers)
  rw [split, List.pairwise_append] at ascending
  obtain ⟨ordered, -, below⟩ := ascending
  have before : ∀ column ∈ columnsOf base tokens.length (numbers.take count), column < base + number := by
    intro column member
    rcases mem_columnsOf.mp member with early | ⟨fresh, listed⟩
    · exact (early.trans_le continues.long).trans_le (Nat.le_add_right _ _)
    · have less := below _ listed number (List.mem_singleton.mpr rfl)
      omega
  have answered := staged_answer (continues.listed count number read) position holds
    (columnsOf_ordered continues.long ordered) (by rwa [continues.width])
    (fun column less => by
      rw [continues.width] at less
      rw [shown column less.le, mem_columnsOf, split, List.mem_append, List.mem_singleton]
      refine or_congr_right (and_congr_right fun fresh => or_iff_left ?_)
      omega)
    (by
      rw [continues.width, shown _ le_rfl, Nat.add_sub_cancel_left, split]
      exact .inr ⟨Nat.le_add_right _ _, List.mem_append_right _ (List.mem_singleton.mpr rfl)⟩)
  rw [continues.width, columnsOf, List.append_assoc, List.append_assoc] at answered
  rw [split, columnsOf, List.map_append, List.map_append]
  exact answered

/-- The columns of the sequence and of the first queries hold the longer sequence. -/
theorem Continues.front (count : Nat) (bound : count ≤ numbers.length) :
    net.Holds (net.columnsAfter visible past queries)
      (columnsOf base tokens.length (numbers.take count)) (tokens ++ (numbers.take count).map label) := by
  induction count with
  | zero =>
    rw [List.take_zero, columnsOf, List.map_nil, List.append_nil, List.map_nil, List.append_nil]
    refine holds_range ?_
    rw [columnsAfter, List.take_append_of_le_length (continues.long.trans_eq continues.width.symm),
      continues.start]
  | succ count ih =>
    exact (continues.step (List.getElem?_eq_getElem bound)
      (ih (Nat.le_of_succ_le bound))).2

/-- Each query is the one of its place in the whole sequence. -/
theorem Continues.query {count number : Nat} (read : numbers[count]? = some number) :
    (net.stage visible 0 past queries)[number]? =
      some (behind (net.chain (tokens ++ (numbers.take count).map label)) (label number)) :=
  (continues.step read (continues.front count (List.getElem?_eq_some_iff.mp read).1.le)).1

theorem Continues.answer [Inhabited τ] {count number : Nat} (read : numbers[count]? = some number) :
    ((net.stage visible 0 past queries).map net.choice)[number]? =
      some (net.next (tokens ++ (numbers.take (count + 1)).map label)) := by
  rw [List.getElem?_map, continues.query read, List.take_add_one, read, Option.toList_some, List.map_append,
    List.map_singleton, ← List.append_assoc, net.next_concat]
  rfl

/-- Gathered in their order, the queries are those of the sequence behind its front. -/
theorem Continues.gathered : Rows.gather numbers (net.stage visible 0 past queries) =
    (net.plainQueries (tokens ++ numbers.map label)).drop tokens.length := by
  have staged : ∀ number ∈ numbers, number < (net.stage visible 0 past queries).length := by
    intro number member
    obtain ⟨count, read⟩ := List.mem_iff_getElem?.mp member
    exact (List.getElem?_eq_some_iff.mp (continues.query read)).1
  refine List.ext_getElem? fun count => ?_
  rw [Rows.gather_getElem? _ _ staged, List.getElem?_drop, plainQueries, List.getElem?_mapIdx,
    List.getElem?_append_right (Nat.le_add_right _ _), Nat.add_sub_cancel_left, List.getElem?_map,
    List.take_length_add_append, ← List.map_take]
  cases read : numbers[count]? with
  | none => rfl
  | some number => exact continues.query read

/-- The front of the cache and the columns of the queries hold the whole sequence. -/
theorem Continues.copied : (net.columnsAfter visible past queries).take tokens.length ++
      Rows.gather (numbers.map (base + ·)) (net.columnsAfter visible past queries) =
    net.chain (tokens ++ numbers.map label) := by
  have whole := (continues.front numbers.length le_rfl).1
  have enough : tokens.length ≤ (net.columnsAfter visible past queries).length := by
    rw [columnsAfter_length, continues.width]
    exact continues.long.trans (Nat.le_add_right _ _)
  rwa [List.take_length, columnsOf, Rows.gather, List.filterMap_append, ← Rows.gather, ← Rows.gather,
    gather_range enough] at whole

end continues

end Network

end SpecBlock.Causal
