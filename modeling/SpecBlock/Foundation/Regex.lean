import Mathlib.Algebra.BigOperators.Group.List.Basic
import Mathlib.Algebra.Ring.Int.Defs

/-!
# Patterns that search from left to right

A pattern is tried at a position of a text, and what it finds there is listed in the order in which a
backtracking matcher tries it, so that the first entry is the match. A repetition is of one class of
characters, and takes as many of them as it can.

A text is searched from its beginning: where the pattern matches, the search goes on behind the match,
elsewhere behind the next character. Substitution and the list of all matches are readings of the pieces
the search leaves.
-/

namespace SpecBlock

/-- A pattern. -/
inductive Regex where
  | empty
  | one (admits : Char → Bool)
  | run (admits : Char → Bool) (least : Nat)
  | seq (first second : Regex)
  | alt (first second : Regex)
  | group (number : Nat) (inner : Regex)
  | boundary
  | start
  | finish
  | behind (admits : Option Char → Bool)
  | ahead (admits : Option Char → Bool)

namespace Regex

/-- What a pattern found: the text it took, its groups, and the text that is left. -/
structure Found where
  text : List Char
  groups : List (Nat × List Char)
  rest : List Char
  deriving DecidableEq

/-- The character in front of the position behind a text. -/
def lastOf : Option Char → List Char → Option Char
  | last, [] => last
  | _, char :: text => lastOf (some char) text

/-- The ways to take characters of a class from the front of a text, the longest first. -/
def runs (admits : Char → Bool) : List Char → List (List Char × List Char)
  | [] => [([], [])]
  | char :: rest =>
    if admits char then
      (runs admits rest).map (fun split => (char :: split.1, split.2)) ++ [([], char :: rest)]
    else [([], char :: rest)]

/-- All that a pattern finds at a position, in the order of trying. The position is given by the
character in front of it, if there is one, and the text behind it. -/
def finds (word : Char → Bool) : Regex → Option Char → List Char → List Found
  | empty, _, text => [⟨[], [], text⟩]
  | one _, _, [] => []
  | one admits, _, char :: text => if admits char then [⟨[char], [], text⟩] else []
  | run admits least, _, text =>
    ((runs admits text).filter (fun split => least ≤ split.1.length)).map
      (fun split => ⟨split.1, [], split.2⟩)
  | seq first second, last, text =>
    (finds word first last text).flatMap (fun found =>
      (finds word second (lastOf last found.text) found.rest).map (fun next =>
        ⟨found.text ++ next.text, found.groups ++ next.groups, next.rest⟩))
  | alt first second, last, text => finds word first last text ++ finds word second last text
  | group number inner, last, text =>
    (finds word inner last text).map (fun found => { found with groups := [(number, found.text)] })
  | boundary, last, text =>
    if last.any word = text.head?.any word then [] else [⟨[], [], text⟩]
  | start, last, text => if last = none then [⟨[], [], text⟩] else []
  | finish, _, text => if text = [] ∨ text = ['\n'] then [⟨[], [], text⟩] else []
  | behind admits, last, text => if admits last then [⟨[], [], text⟩] else []
  | ahead admits, _, text => if admits text.head? then [⟨[], [], text⟩] else []

attribute [grind =] finds

/-- The pattern's match at a position. No pattern here matches the empty text; one that did would be
passed by. -/
def matchAt (word : Char → Bool) (pattern : Regex) (last : Option Char) (text : List Char) :
    Option Found :=
  (finds word pattern last text).head?.filter (fun found => found.text ≠ [])

/-- What a search leaves of a text: characters it passed by, and matches. The first argument counts the
characters of a match that are still to be skipped. -/
def pieces (word : Char → Bool) (pattern : Regex) :
    Nat → Option Char → List Char → List (Char ⊕ Found)
  | _, _, [] => []
  | skip + 1, _, char :: text => pieces word pattern skip (some char) text
  | 0, last, char :: text =>
    match matchAt word pattern last (char :: text) with
    | some found => .inr found :: pieces word pattern (found.text.length - 1) (some char) text
    | none => .inl char :: pieces word pattern 0 (some char) text

/-- A group of a match; one that took no part is empty. -/
def Found.group (found : Found) (number : Nat) : List Char := (found.groups.lookup number).getD []

/-- A text with each match replaced, by what its groups make of it. -/
def sub (word : Char → Bool) (pattern : Regex) (replacement : (Nat → List Char) → List Char)
    (last : Option Char) (text : List Char) : List Char :=
  (pieces word pattern 0 last text).flatMap
    (Sum.elim (fun char => [char]) (fun found => replacement found.group))

/-- All matches of a search, in order. -/
def finditer (word : Char → Bool) (pattern : Regex) (text : List Char) : List Found :=
  (pieces word pattern 0 none text).filterMap Sum.getRight?

/-- The first match of a search. -/
def search (word : Char → Bool) (pattern : Regex) (text : List Char) : Option Found :=
  (finditer word pattern text).head?

/-- The match at the beginning that takes the whole text. -/
def fullmatch (word : Char → Bool) (pattern : Regex) (text : List Char) : Option Found :=
  (finds word pattern none text).find? (fun found => found.rest = [])

/-- A text of one line, written out. -/
def lit (text : List Char) : Regex := text.foldr (fun char rest => seq (one (· == char)) rest) empty

/-- A pattern or nothing. -/
def opt (inner : Regex) : Regex := alt inner empty

/-- One of several patterns, tried in order. -/
def any : List Regex → Regex
  | [] => seq (one fun _ => false) empty
  | [last] => last
  | first :: others => alt first (any others)

section finds

variable {word : Char → Bool}

/-- A split takes characters of the class, and leaves the others. -/
theorem runs_spec {admits : Char → Bool} {text : List Char} {split : List Char × List Char}
    (member : split ∈ runs admits text) :
    split.1 ++ split.2 = text ∧ ∀ char ∈ split.1, admits char = true := by
  induction text generalizing split with
  | nil =>
    rw [runs, List.mem_singleton] at member
    rw [member]
    exact ⟨rfl, nofun⟩
  | cons char rest ih =>
    rw [runs] at member
    split at member
    next admitted =>
      rcases List.mem_append.mp member with longer | none
      · obtain ⟨shorter, inRest, rfl⟩ := List.mem_map.mp longer
        obtain ⟨parts, all⟩ := ih inRest
        exact ⟨congrArg (char :: ·) parts, List.forall_mem_cons.mpr ⟨admitted, all⟩⟩
      · rw [List.mem_singleton.mp none]
        exact ⟨rfl, nofun⟩
    next =>
      rw [List.mem_singleton.mp member]
      exact ⟨rfl, nofun⟩

/-- Every front of characters of the class is a way to take them. -/
theorem mem_runs {admits : Char → Bool} {front rest : List Char}
    (all : ∀ char ∈ front, admits char = true) : (front, rest) ∈ runs admits (front ++ rest) := by
  induction front with
  | nil =>
    cases rest with
    | nil => exact .head _
    | cons char rest =>
      rw [List.nil_append, runs]
      split
      · exact List.mem_append_right _ (.head _)
      · exact .head _
  | cons char front ih =>
    obtain ⟨here, others⟩ := List.forall_mem_cons.mp all
    rw [List.cons_append, runs, if_pos here]
    exact List.mem_append_left _ (List.mem_map.mpr ⟨_, ih others, rfl⟩)

theorem mem_run {admits : Char → Bool} {least : Nat} {last : Option Char} {text : List Char}
    {found : Found} : found ∈ finds word (run admits least) last text ↔
      ∃ front rest, text = front ++ rest ∧ (∀ char ∈ front, admits char = true) ∧
        least ≤ front.length ∧ found = ⟨front, [], rest⟩ := by
  constructor
  · intro member
    obtain ⟨split, inRuns, rfl⟩ := List.mem_map.mp member
    obtain ⟨inAll, long⟩ := List.mem_filter.mp inRuns
    obtain ⟨parts, all⟩ := runs_spec inAll
    exact ⟨split.1, split.2, parts.symm, all, of_decide_eq_true long, rfl⟩
  · rintro ⟨front, rest, rfl, all, long, rfl⟩
    exact List.mem_map.mpr ⟨(front, rest), List.mem_filter.mpr ⟨mem_runs all, decide_eq_true long⟩, rfl⟩

theorem mem_boundary {last : Option Char} {text : List Char} {found : Found} :
    found ∈ finds word boundary last text ↔
      last.any word ≠ text.head?.any word ∧ found = ⟨[], [], text⟩ := by
  rw [finds]
  split
  next same => exact ⟨nofun, fun ⟨differs, _⟩ => absurd same differs⟩
  next differs => exact List.mem_singleton.trans (and_iff_right differs).symm

theorem mem_finish {last : Option Char} {text : List Char} {found : Found} :
    found ∈ finds word finish last text ↔ (text = [] ∨ text = ['\n']) ∧ found = ⟨[], [], text⟩ := by
  rw [finds]
  split
  next ended => exact List.mem_singleton.trans (and_iff_right ended).symm
  next goesOn => exact ⟨nofun, fun ⟨ended, _⟩ => absurd ended goesOn⟩

theorem mem_start {last : Option Char} {text : List Char} {found : Found} :
    found ∈ finds word start last text ↔ last = none ∧ found = ⟨[], [], text⟩ := by
  rw [finds]
  split
  next first => exact List.mem_singleton.trans (and_iff_right first).symm
  next later => exact ⟨nofun, fun ⟨first, _⟩ => absurd first later⟩

/-- A pattern that takes nothing. -/
def ZeroWidth : Regex → Bool
  | empty | boundary | start | finish | behind _ | ahead _ => true
  | _ => false

theorem finds_zeroWidth {pattern : Regex} (zero : pattern.ZeroWidth = true) {last : Option Char}
    {text : List Char} {found : Found} (member : found ∈ finds word pattern last text) :
    found = ⟨[], [], text⟩ := by
  cases pattern with
  | empty => exact List.mem_singleton.mp member
  | boundary =>
    rw [finds] at member
    split at member
    · cases member
    · exact List.mem_singleton.mp member
  | start | finish | behind | ahead =>
    rw [finds] at member
    split at member
    · exact List.mem_singleton.mp member
    · cases member
  | one | run | seq | alt | group => cases zero

theorem finds_text {pattern : Regex} {last : Option Char} {text : List Char} {found : Found}
    (member : found ∈ finds word pattern last text) : found.text ++ found.rest = text := by
  induction pattern generalizing last text found with
  | one admits =>
    cases text with
    | nil => cases member
    | cons char text =>
      rw [finds] at member
      split at member
      · rw [List.mem_singleton.mp member]
        rfl
      · cases member
  | run admits least =>
    obtain ⟨split, inRuns, rfl⟩ := List.mem_map.mp member
    exact (runs_spec (List.mem_of_mem_filter inRuns)).1
  | seq first second firstHypothesis secondHypothesis =>
    obtain ⟨front, inFirst, others⟩ := List.mem_flatMap.mp member
    obtain ⟨next, inSecond, rfl⟩ := List.mem_map.mp others
    rw [List.append_assoc, secondHypothesis inSecond, firstHypothesis inFirst]
  | alt first second firstHypothesis secondHypothesis =>
    exact (List.mem_append.mp member).elim firstHypothesis secondHypothesis
  | group number inner ih =>
    obtain ⟨found, inInner, rfl⟩ := List.mem_map.mp member
    have taken : found.text ++ found.rest = text := ih inInner
    exact taken
  | empty | boundary | start | finish | behind | ahead =>
    rw [finds_zeroWidth rfl member]
    rfl

theorem mem_seq {first second : Regex} {last : Option Char} {text : List Char} {found : Found} :
    found ∈ finds word (seq first second) last text ↔
      ∃ front ∈ finds word first last text, ∃ next ∈ finds word second (lastOf last front.text) front.rest,
        found = ⟨front.text ++ next.text, front.groups ++ next.groups, next.rest⟩ := by
  rw [finds, List.mem_flatMap]
  constructor
  · rintro ⟨front, inFirst, others⟩
    obtain ⟨next, inSecond, rfl⟩ := List.mem_map.mp others
    exact ⟨front, inFirst, next, inSecond, rfl⟩
  · rintro ⟨front, inFirst, next, inSecond, rfl⟩
    exact ⟨front, inFirst, List.mem_map.mpr ⟨next, inSecond, rfl⟩⟩

theorem mem_any {patterns : List Regex} {last : Option Char} {text : List Char} {found : Found} :
    found ∈ finds word (any patterns) last text ↔
      ∃ pattern ∈ patterns, found ∈ finds word pattern last text := by
  induction patterns with
  | nil =>
    refine ⟨fun member => ?_, nofun⟩
    obtain ⟨front, inNone, -⟩ := mem_seq.mp member
    cases text <;> cases inNone
  | cons first others ih =>
    cases others with
    | nil => simp [any]
    | cons second others =>
      change found ∈ finds word first last text ++ finds word (any (second :: others)) last text ↔ _
      rw [List.mem_append, ih]
      exact (List.exists_mem_cons_iff (fun pattern => found ∈ finds word pattern last text) _ _).symm

theorem mem_lit {written : List Char} {last : Option Char} {text : List Char} {found : Found} :
    found ∈ finds word (lit written) last text ↔
      ∃ rest, text = written ++ rest ∧ found = ⟨written, [], rest⟩ := by
  induction written generalizing last text found with
  | nil =>
    refine List.mem_singleton.trans ⟨fun same => ⟨text, rfl, same⟩, ?_⟩
    rintro ⟨rest, parts, same⟩
    rw [same, parts]
    rfl
  | cons char written ih =>
    refine (@mem_seq word (one (· == char)) (lit written) last text found).trans ?_
    cases text with
    | nil =>
      constructor
      · rintro ⟨_, inNone, _⟩
        cases inNone
      · rintro ⟨_, same, _⟩
        cases same
    | cons other text =>
      rw [finds]
      split
      next same =>
        obtain rfl := beq_iff_eq.mp same
        constructor
        · rintro ⟨front, inOne, next, inLit, rfl⟩
          rw [List.mem_singleton.mp inOne] at inLit
          obtain ⟨rest, same, rfl⟩ := ih.mp inLit
          have parts : text = written ++ rest := same
          rw [List.mem_singleton.mp inOne, parts]
          exact ⟨rest, rfl, rfl⟩
        · rintro ⟨rest, parts, rfl⟩
          exact ⟨_, .head _, _, ih.mpr ⟨rest, List.tail_eq_of_cons_eq parts, rfl⟩, rfl⟩
      next differs =>
        constructor
        · rintro ⟨_, inNone, _⟩
          cases inNone
        · rintro ⟨_, same, _⟩
          exact absurd (beq_iff_eq.mpr (List.head_eq_of_cons_eq same)) differs

/-- The character in front of a text that is not empty is its own. -/
theorem lastOf_ne_nil {text : List Char} (filled : text ≠ []) (last last' : Option Char) :
    lastOf last text = lastOf last' text := by
  cases text with
  | nil => exact absurd rfl filled
  | cons char text => rfl

theorem lastOf_append (last : Option Char) (first second : List Char) :
    lastOf last (first ++ second) = lastOf (lastOf last first) second := by
  induction first generalizing last with
  | nil => rfl
  | cons char first ih => exact ih (some char)

/-- In front of the position behind a text stands its last character. -/
theorem lastOf_getLast {text : List Char} (filled : text ≠ []) (last : Option Char) :
    lastOf last text = text.getLast? := by
  induction text generalizing last with
  | nil => exact absurd rfl filled
  | cons char text ih =>
    cases text with
    | nil => rfl
    | cons other text => exact ih (List.cons_ne_nil _ _) (some char)

theorem lastOf_word {text : List Char} (filled : text ≠ [])
    (all : ∀ char ∈ text, word char = true) (last : Option Char) : (lastOf last text).any word = true := by
  rw [lastOf_getLast filled, List.getLast?_eq_some_getLast filled]
  exact all _ (List.getLast_mem filled)

/-- A pattern without anchors looks at the character in front only to see whether it is of a word. -/
def Free : Regex → Bool
  | start | finish | behind _ | ahead _ => false
  | seq first second | alt first second => first.Free && second.Free
  | group _ inner => inner.Free
  | _ => true

/-- A pattern without anchors finds the same behind two characters that are both of a word, or both
not. -/
theorem finds_last {pattern : Regex} (free : pattern.Free = true) {last last' : Option Char}
    (same : last.any word = last'.any word) (text : List Char) :
    finds word pattern last text = finds word pattern last' text := by
  induction pattern generalizing last last' text with
  | empty | run => rfl
  | one => cases text <;> rfl
  | seq first second firstHypothesis secondHypothesis =>
    obtain ⟨here, next⟩ := Bool.and_eq_true_iff.mp free
    rw [finds, finds, firstHypothesis here same]
    refine List.flatMap_congr fun found _ => ?_
    by_cases nothing : found.text = []
    · rw [nothing, lastOf, lastOf, secondHypothesis next same]
    · rw [lastOf_ne_nil nothing last last']
  | alt first second firstHypothesis secondHypothesis =>
    obtain ⟨here, next⟩ := Bool.and_eq_true_iff.mp free
    rw [finds, finds, firstHypothesis here same, secondHypothesis next same]
  | group number inner ih => rw [finds, finds, ih free same]
  | boundary => rw [finds, finds, same]
  | start | finish | behind | ahead => cases free

/-- A pattern that finds no empty text. -/
def Filled : Regex → Bool
  | one _ => true
  | run _ least => decide (0 < least)
  | seq first second => first.Filled || second.Filled
  | alt first second => first.Filled && second.Filled
  | group _ inner => inner.Filled
  | _ => false

theorem finds_filled {pattern : Regex} (filled : pattern.Filled = true) {last : Option Char}
    {text : List Char} {found : Found} (member : found ∈ finds word pattern last text) :
    found.text ≠ [] := by
  induction pattern generalizing last text found with
  | one admits =>
    cases text with
    | nil => cases member
    | cons char text =>
      rw [finds] at member
      split at member
      · rw [List.mem_singleton.mp member]
        exact List.cons_ne_nil _ _
      · cases member
  | run admits least =>
    obtain ⟨split, inRuns, rfl⟩ := List.mem_map.mp member
    have long := of_decide_eq_true (List.mem_filter.mp inRuns).2
    exact List.ne_nil_of_length_pos ((of_decide_eq_true filled).trans_le long)
  | seq first second firstHypothesis secondHypothesis =>
    obtain ⟨front, inFirst, others⟩ := List.mem_flatMap.mp member
    obtain ⟨next, inSecond, rfl⟩ := List.mem_map.mp others
    rcases Bool.or_eq_true_iff.mp filled with here | there
    · exact List.append_ne_nil_of_left_ne_nil (firstHypothesis here inFirst) _
    · exact List.append_ne_nil_of_right_ne_nil _ (secondHypothesis there inSecond)
  | alt first second firstHypothesis secondHypothesis =>
    obtain ⟨here, there⟩ := Bool.and_eq_true_iff.mp filled
    exact (List.mem_append.mp member).elim (firstHypothesis here) (secondHypothesis there)
  | group number inner ih =>
    obtain ⟨found, inInner, rfl⟩ := List.mem_map.mp member
    have here : found.text ≠ [] := ih filled inInner
    exact here
  | empty | boundary | start | finish | behind | ahead => cases filled

/-- What is found and not empty begins with an allowed character. -/
def MayBegin (allowed : Char → Prop) : Regex → Prop
  | one admits => ∀ char, admits char = true → allowed char
  | run admits _ => ∀ char, admits char = true → allowed char
  | seq first second => first.MayBegin allowed ∧ (first.Filled = true ∨ second.MayBegin allowed)
  | alt first second => first.MayBegin allowed ∧ second.MayBegin allowed
  | group _ inner => inner.MayBegin allowed
  | _ => True

/-- What is found and not empty ends with an allowed character. -/
def MayEnd (allowed : Char → Prop) : Regex → Prop
  | one admits => ∀ char, admits char = true → allowed char
  | run admits _ => ∀ char, admits char = true → allowed char
  | seq first second => second.MayEnd allowed ∧ (second.Filled = true ∨ first.MayEnd allowed)
  | alt first second => first.MayEnd allowed ∧ second.MayEnd allowed
  | group _ inner => inner.MayEnd allowed
  | _ => True

/-- What is found is not empty and begins with an allowed character. -/
def Begins (allowed : Char → Prop) (pattern : Regex) : Prop :=
  pattern.Filled = true ∧ pattern.MayBegin allowed

/-- What is found is not empty and ends with an allowed character. -/
def Ends (allowed : Char → Prop) (pattern : Regex) : Prop :=
  pattern.Filled = true ∧ pattern.MayEnd allowed

/-- A pattern whose matches may begin with allowed characters only. -/
theorem finds_mayBegin {allowed : Char → Prop} {pattern : Regex} (may : pattern.MayBegin allowed)
    {last : Option Char} {text : List Char} {found : Found}
    (member : found ∈ finds word pattern last text) : ∀ char, found.text.head? = some char → allowed char := by
  induction pattern generalizing last text found with
  | one admits =>
    cases text with
    | nil => cases member
    | cons char text =>
      rw [finds] at member
      split at member
      next admitted =>
        rw [List.mem_singleton.mp member]
        rintro _ ⟨⟩
        exact may char admitted
      next => cases member
  | run admits least =>
    obtain ⟨split, inRuns, rfl⟩ := List.mem_map.mp member
    intro char first
    exact may char ((runs_spec (List.mem_of_mem_filter inRuns)).2 char (List.mem_of_mem_head? first))
  | seq first second firstHypothesis secondHypothesis =>
    obtain ⟨front, inFirst, others⟩ := List.mem_flatMap.mp member
    obtain ⟨next, inSecond, rfl⟩ := List.mem_map.mp others
    intro char head
    rw [List.head?_append] at head
    cases here : front.text.head? with
    | none =>
      rw [here, Option.none_or] at head
      rcases may.2 with filled | there
      · exact absurd (List.head?_eq_none_iff.mp here) (finds_filled filled inFirst)
      · exact secondHypothesis there inSecond char head
    | some other =>
      rw [here, Option.some_or] at head
      exact firstHypothesis may.1 inFirst char (here.trans head)
  | alt first second firstHypothesis secondHypothesis =>
    exact (List.mem_append.mp member).elim (firstHypothesis may.1) (secondHypothesis may.2)
  | group number inner ih =>
    obtain ⟨found, inInner, rfl⟩ := List.mem_map.mp member
    have begins : ∀ char, found.text.head? = some char → allowed char :=
      ih may inInner
    exact begins
  | empty | boundary | start | finish | behind | ahead =>
    rw [finds_zeroWidth rfl member]
    nofun

theorem finds_begins {allowed : Char → Prop} {pattern : Regex} (begins : pattern.Begins allowed)
    {last : Option Char} {text : List Char} {found : Found}
    (member : found ∈ finds word pattern last text) :
    ∃ char, found.text.head? = some char ∧ allowed char := by
  cases head : found.text.head? with
  | none => exact absurd (List.head?_eq_none_iff.mp head) (finds_filled begins.1 member)
  | some char => exact ⟨char, rfl, finds_mayBegin begins.2 member char head⟩

/-- A pattern whose matches may end with allowed characters only. -/
theorem finds_mayEnd {allowed : Char → Prop} {pattern : Regex} (may : pattern.MayEnd allowed)
    {last : Option Char} {text : List Char} {found : Found}
    (member : found ∈ finds word pattern last text) :
    ∀ char, found.text.getLast? = some char → allowed char := by
  induction pattern generalizing last text found with
  | one admits =>
    cases text with
    | nil => cases member
    | cons char text =>
      rw [finds] at member
      split at member
      next admitted =>
        rw [List.mem_singleton.mp member]
        rintro _ ⟨⟩
        exact may char admitted
      next => cases member
  | run admits least =>
    obtain ⟨split, inRuns, rfl⟩ := List.mem_map.mp member
    intro char final
    exact may char ((runs_spec (List.mem_of_mem_filter inRuns)).2 char (List.mem_of_getLast? final))
  | seq first second firstHypothesis secondHypothesis =>
    obtain ⟨front, inFirst, others⟩ := List.mem_flatMap.mp member
    obtain ⟨next, inSecond, rfl⟩ := List.mem_map.mp others
    intro char final
    rw [List.getLast?_append] at final
    cases here : next.text.getLast? with
    | none =>
      rw [here, Option.none_or] at final
      rcases may.2 with filled | front
      · exact absurd (List.getLast?_eq_none_iff.mp here) (finds_filled filled inSecond)
      · exact firstHypothesis front inFirst char final
    | some other =>
      rw [here, Option.some_or] at final
      exact secondHypothesis may.1 inSecond char (here.trans final)
  | alt first second firstHypothesis secondHypothesis =>
    exact (List.mem_append.mp member).elim (firstHypothesis may.1) (secondHypothesis may.2)
  | group number inner ih =>
    obtain ⟨found, inInner, rfl⟩ := List.mem_map.mp member
    have ends : ∀ char, found.text.getLast? = some char → allowed char :=
      ih may inInner
    exact ends
  | empty | boundary | start | finish | behind | ahead =>
    rw [finds_zeroWidth rfl member]
    nofun

theorem finds_ends {allowed : Char → Prop} {pattern : Regex} (ends : pattern.Ends allowed)
    {last : Option Char} {text : List Char} {found : Found}
    (member : found ∈ finds word pattern last text) :
    ∃ char, found.text.getLast? = some char ∧ allowed char := by
  cases final : found.text.getLast? with
  | none => exact absurd (List.getLast?_eq_none_iff.mp final) (finds_filled ends.1 member)
  | some char => exact ⟨char, rfl, finds_mayEnd ends.2 member char final⟩

/-- What is found has allowed characters only. -/
def Within (allowed : Char → Prop) : Regex → Prop
  | one admits => ∀ char, admits char = true → allowed char
  | run admits _ => ∀ char, admits char = true → allowed char
  | seq first second | alt first second => first.Within allowed ∧ second.Within allowed
  | group _ inner => inner.Within allowed
  | _ => True

theorem MayBegin.of_within {allowed : Char → Prop} {pattern : Regex}
    (within : pattern.Within allowed) : pattern.MayBegin allowed := by
  induction pattern with
  | one | run => exact within
  | seq first second firstHypothesis secondHypothesis =>
    exact ⟨firstHypothesis within.1, .inr (secondHypothesis within.2)⟩
  | alt first second firstHypothesis secondHypothesis =>
    exact ⟨firstHypothesis within.1, secondHypothesis within.2⟩
  | group number inner ih => exact ih within
  | empty | boundary | start | finish | behind | ahead => exact trivial

theorem MayEnd.of_within {allowed : Char → Prop} {pattern : Regex}
    (within : pattern.Within allowed) : pattern.MayEnd allowed := by
  induction pattern with
  | one | run => exact within
  | seq first second firstHypothesis secondHypothesis =>
    exact ⟨secondHypothesis within.2, .inr (firstHypothesis within.1)⟩
  | alt first second firstHypothesis secondHypothesis =>
    exact ⟨firstHypothesis within.1, secondHypothesis within.2⟩
  | group number inner ih => exact ih within
  | empty | boundary | start | finish | behind | ahead => exact trivial

theorem finds_within {allowed : Char → Prop} {pattern : Regex} (within : pattern.Within allowed)
    {last : Option Char} {text : List Char} {found : Found}
    (member : found ∈ finds word pattern last text) : ∀ char ∈ found.text, allowed char := by
  induction pattern generalizing last text found with
  | one admits =>
    cases text with
    | nil => cases member
    | cons char text =>
      rw [finds] at member
      split at member
      next admitted =>
        rw [List.mem_singleton.mp member]
        intro other same
        exact List.mem_singleton.mp same ▸ within char admitted
      next => cases member
  | run admits least =>
    obtain ⟨front, rest, -, all, -, rfl⟩ := mem_run.mp member
    exact fun char taken => within char (all char taken)
  | seq first second firstHypothesis secondHypothesis =>
    obtain ⟨front, inFirst, next, inSecond, rfl⟩ := mem_seq.mp member
    exact List.forall_mem_append.mpr
      ⟨firstHypothesis within.1 inFirst, secondHypothesis within.2 inSecond⟩
  | alt first second firstHypothesis secondHypothesis =>
    exact (List.mem_append.mp member).elim (firstHypothesis within.1) (secondHypothesis within.2)
  | group number inner ih =>
    obtain ⟨found, inInner, rfl⟩ := List.mem_map.mp member
    have here : ∀ char ∈ found.text, allowed char := ih within inInner
    exact here
  | empty | boundary | start | finish | behind | ahead =>
    rw [finds_zeroWidth rfl member]
    nofun

/-- What is found has a character of a kind. -/
def Contains (kind : Char → Prop) : Regex → Prop
  | one admits => ∀ char, admits char = true → kind char
  | run admits least => 0 < least ∧ ∀ char, admits char = true → kind char
  | seq first second => first.Contains kind ∨ second.Contains kind
  | alt first second => first.Contains kind ∧ second.Contains kind
  | group _ inner => inner.Contains kind
  | _ => False

theorem finds_contains {kind : Char → Prop} {pattern : Regex} (contains : pattern.Contains kind)
    {last : Option Char} {text : List Char} {found : Found}
    (member : found ∈ finds word pattern last text) : ∃ char ∈ found.text, kind char := by
  induction pattern generalizing last text found with
  | one admits =>
    cases text with
    | nil => cases member
    | cons char text =>
      rw [finds] at member
      split at member
      next admitted =>
        rw [List.mem_singleton.mp member]
        exact ⟨char, .head _, contains char admitted⟩
      next => cases member
  | run admits least =>
    have filled : (run admits least).Filled = true := decide_eq_true contains.1
    obtain ⟨char, taken⟩ := List.exists_mem_of_ne_nil _ (finds_filled filled member)
    obtain ⟨split, inRuns, rfl⟩ := List.mem_map.mp member
    exact ⟨char, taken, contains.2 char ((runs_spec (List.mem_of_mem_filter inRuns)).2 char taken)⟩
  | seq first second firstHypothesis secondHypothesis =>
    obtain ⟨front, inFirst, others⟩ := List.mem_flatMap.mp member
    obtain ⟨next, inSecond, rfl⟩ := List.mem_map.mp others
    rcases contains with here | there
    · obtain ⟨char, taken, fine⟩ := firstHypothesis here inFirst
      exact ⟨char, List.mem_append_left _ taken, fine⟩
    · obtain ⟨char, taken, fine⟩ := secondHypothesis there inSecond
      exact ⟨char, List.mem_append_right _ taken, fine⟩
  | alt first second firstHypothesis secondHypothesis =>
    exact (List.mem_append.mp member).elim (firstHypothesis contains.1) (secondHypothesis contains.2)
  | group number inner ih =>
    obtain ⟨found, inInner, rfl⟩ := List.mem_map.mp member
    have here : ∃ char ∈ found.text, kind char := ih contains inInner
    exact here
  | empty | boundary | start | finish | behind | ahead => cases contains

/-- Weight of a text. -/
def weigh (weight : Char → Int) (text : List Char) : Int := (text.map weight).sum

/-- Weight of the texts of groups. -/
def weighGroups (weight : Char → Int) (groups : List (Nat × List Char)) : Int :=
  (groups.map (fun entry => weigh weight entry.2)).sum

theorem weigh_append (weight : Char → Int) (first second : List Char) :
    weigh weight (first ++ second) = weigh weight first + weigh weight second := by
  rw [weigh, List.map_append, List.sum_append, weigh, weigh]

theorem weigh_cons (weight : Char → Int) (char : Char) (text : List Char) :
    weigh weight (char :: text) = weight char + weigh weight text := rfl

theorem weigh_zero {weight : Char → Int} {text : List Char} (light : ∀ char ∈ text, weight char = 0) :
    weigh weight text = 0 := by
  induction text with
  | nil => rfl
  | cons char text ih =>
    obtain ⟨here, others⟩ := List.forall_mem_cons.mp light
    rw [weigh, List.map_cons, List.sum_cons, here, zero_add]
    exact ih others

/-- What a pattern takes outside of its groups has no weight. -/
def Weightless (weight : Char → Int) : Regex → Prop
  | one admits => ∀ char, admits char = true → weight char = 0
  | run admits _ => ∀ char, admits char = true → weight char = 0
  | seq first second | alt first second => first.Weightless weight ∧ second.Weightless weight
  | _ => True

theorem finds_weight {weight : Char → Int} {pattern : Regex} (light : pattern.Weightless weight)
    {last : Option Char} {text : List Char} {found : Found}
    (member : found ∈ finds word pattern last text) :
    weigh weight found.text = weighGroups weight found.groups := by
  induction pattern generalizing last text found with
  | one admits =>
    cases text with
    | nil => cases member
    | cons char text =>
      rw [finds] at member
      split at member
      next admitted =>
        rw [List.mem_singleton.mp member]
        exact weigh_zero fun other same => by rw [List.mem_singleton.mp same, light char admitted]
      next => cases member
  | run admits least =>
    obtain ⟨split, inRuns, rfl⟩ := List.mem_map.mp member
    exact weigh_zero fun char taken =>
      light char ((runs_spec (List.mem_of_mem_filter inRuns)).2 char taken)
  | seq first second firstHypothesis secondHypothesis =>
    obtain ⟨front, inFirst, others⟩ := List.mem_flatMap.mp member
    obtain ⟨next, inSecond, rfl⟩ := List.mem_map.mp others
    dsimp only
    rw [weigh_append, firstHypothesis light.1 inFirst, secondHypothesis light.2 inSecond, weighGroups,
      weighGroups, weighGroups, List.map_append, List.sum_append]
  | alt first second firstHypothesis secondHypothesis =>
    exact (List.mem_append.mp member).elim (firstHypothesis light.1) (secondHypothesis light.2)
  | group number inner =>
    obtain ⟨found, -, rfl⟩ := List.mem_map.mp member
    exact (add_zero _).symm
  | empty | boundary | start | finish | behind | ahead =>
    rw [finds_zeroWidth rfl member]
    rfl

/-- The numbers of the groups that can take part in a match together. -/
def groupNumbers : Regex → List (List Nat)
  | seq first second =>
    first.groupNumbers.flatMap (fun front => second.groupNumbers.map (fun next => front ++ next))
  | alt first second => first.groupNumbers ++ second.groupNumbers
  | group number _ => [[number]]
  | _ => [[]]

theorem finds_groups {pattern : Regex} {last : Option Char} {text : List Char} {found : Found}
    (member : found ∈ finds word pattern last text) :
    found.groups.map Prod.fst ∈ pattern.groupNumbers := by
  induction pattern generalizing last text found with
  | one admits =>
    cases text with
    | nil => cases member
    | cons char text =>
      rw [finds] at member
      split at member
      · rw [List.mem_singleton.mp member]
        exact .head _
      · cases member
  | run admits least =>
    obtain ⟨split, -, rfl⟩ := List.mem_map.mp member
    exact .head _
  | seq first second firstHypothesis secondHypothesis =>
    obtain ⟨front, inFirst, others⟩ := List.mem_flatMap.mp member
    obtain ⟨next, inSecond, rfl⟩ := List.mem_map.mp others
    refine List.mem_flatMap.mpr ⟨_, firstHypothesis inFirst, List.mem_map.mpr
      ⟨_, secondHypothesis inSecond, ?_⟩⟩
    rw [List.map_append]
  | alt first second firstHypothesis secondHypothesis =>
    rw [groupNumbers]
    exact (List.mem_append.mp member).elim
      (fun here => List.mem_append_left _ (firstHypothesis here))
      (fun here => List.mem_append_right _ (secondHypothesis here))
  | group number inner =>
    obtain ⟨found, -, rfl⟩ := List.mem_map.mp member
    exact .head _
  | empty | boundary | start | finish | behind | ahead =>
    rw [finds_zeroWidth rfl member]
    exact .head _

/-- What was found, with more text left. -/
def Found.extend (tail : List Char) (found : Found) : Found := { found with rest := found.rest ++ tail }

/-- The only way to take characters and leave all of a text is to take none. -/
theorem runs_whole (admits : Char → Bool) (text : List Char) :
    (runs admits text).filter (fun split => text.length ≤ split.2.length) = [([], text)] := by
  cases text with
  | nil => rfl
  | cons char rest =>
    have shorter : ((runs admits rest).map (fun split => (char :: split.1, split.2))).filter
        (fun split => (char :: rest).length ≤ split.2.length) = [] := by
      rw [List.filter_eq_nil_iff]
      intro split member
      obtain ⟨inner, inRest, rfl⟩ := List.mem_map.mp member
      have parts := congrArg List.length (runs_spec inRest).1
      rw [List.length_append] at parts
      simp only [List.length_cons, decide_eq_true_eq, not_le]
      omega
    rw [runs]
    split
    · rw [List.filter_append, shorter, List.filter_cons_of_pos (by simp)]
      rfl
    · rw [List.filter_cons_of_pos (by simp)]
      rfl

theorem runs_append (admits : Char → Bool) (text tail : List Char) :
    (runs admits (text ++ tail)).filter (fun split => tail.length ≤ split.2.length) =
      (runs admits text).map (fun split => (split.1, split.2 ++ tail)) := by
  induction text with
  | nil => exact runs_whole admits tail
  | cons char text ih =>
    have nothing : [(([] : List Char), char :: (text ++ tail))].filter
        (fun split => tail.length ≤ split.2.length) = [([], char :: (text ++ tail))] := by
      refine List.filter_cons_of_pos (decide_eq_true ?_)
      rw [List.length_cons, List.length_append]
      omega
    rw [List.cons_append, runs, runs]
    split
    · rw [List.filter_append, List.filter_map, List.map_append, List.map_map, nothing]
      have inner := congrArg (List.map (fun split : List Char × List Char => (char :: split.1, split.2)))
        ih
      rw [List.map_map] at inner
      exact congrArg (· ++ _) inner
    · rw [nothing]
      rfl

theorem flatMap_filter {A B : Type} {keep : A → Bool} {parts : A → List B} (all : List A)
    (nothing : ∀ entry ∈ all, keep entry = false → parts entry = []) :
    all.flatMap parts = (all.filter keep).flatMap parts := by
  induction all with
  | nil => rfl
  | cons entry others ih =>
    obtain ⟨here, rest⟩ := List.forall_mem_cons.mp nothing
    cases kept : keep entry with
    | true =>
      rw [List.filter_cons_of_pos kept, List.flatMap_cons, List.flatMap_cons, ih rest]
    | false =>
      rw [List.filter_cons_of_neg (Bool.eq_false_iff.mp kept), List.flatMap_cons, here kept,
        List.nil_append, ih rest]

/-- Behind more text that does not begin with a word, a pattern without anchors finds, within the text,
what it finds without. -/
theorem finds_append {pattern : Regex} (free : pattern.Free = true) {tail : List Char}
    (apart : tail.head?.any word = false) (last : Option Char) (text : List Char) :
    (finds word pattern last (text ++ tail)).filter (fun found => tail.length ≤ found.rest.length) =
      (finds word pattern last text).map (Found.extend tail) := by
  have fits (front : List Char) (groups : List (Nat × List Char)) (rest : List Char) :
      [Found.mk front groups (rest ++ tail)].filter (fun found => tail.length ≤ found.rest.length) =
        [Found.mk front groups (rest ++ tail)] := by
    refine List.filter_cons_of_pos (decide_eq_true ?_)
    rw [List.length_append]
    omega
  induction pattern generalizing last text with
  | empty => exact fits [] [] text
  | one admits =>
    cases text with
    | nil =>
      cases tail with
      | nil => rfl
      | cons char tail =>
        rw [List.nil_append, finds, finds]
        split
        · exact List.filter_cons_of_neg (by simp)
        · rfl
    | cons char text =>
      rw [List.cons_append, finds, finds]
      split
      · exact fits [char] [] text
      · rfl
  | run admits least =>
    rw [finds, finds, List.filter_map, List.filter_filter, List.map_map]
    have swap : (runs admits (text ++ tail)).filter (fun split =>
        decide (tail.length ≤ split.2.length) && decide (least ≤ split.1.length)) =
        ((runs admits (text ++ tail)).filter (fun split => tail.length ≤ split.2.length)).filter
          (fun split => least ≤ split.1.length) := by
      rw [List.filter_filter]
      exact List.filter_congr fun split _ => Bool.and_comm _ _
    refine (congrArg (List.map _) swap).trans ?_
    rw [runs_append, List.filter_map, List.map_map]
    rfl
  | seq first second firstHypothesis secondHypothesis =>
    obtain ⟨here, next⟩ := Bool.and_eq_true_iff.mp free
    rw [finds, finds, List.filter_flatMap, List.map_flatMap]
    have inner (found : Found) : ((finds word second (lastOf last found.text) found.rest).map
        (fun next => Found.mk (found.text ++ next.text) (found.groups ++ next.groups) next.rest)).filter
          (fun found => tail.length ≤ found.rest.length) =
        ((finds word second (lastOf last found.text) found.rest).filter
          (fun found => tail.length ≤ found.rest.length)).map
            (fun next => Found.mk (found.text ++ next.text) (found.groups ++ next.groups) next.rest) := by
      rw [List.filter_map]
      rfl
    have narrow : (finds word first last (text ++ tail)).flatMap (fun found =>
        ((finds word second (lastOf last found.text) found.rest).map (fun next =>
          Found.mk (found.text ++ next.text) (found.groups ++ next.groups) next.rest)).filter
            (fun found => tail.length ≤ found.rest.length)) =
        ((finds word first last (text ++ tail)).filter
          (fun found => tail.length ≤ found.rest.length)).flatMap (fun found =>
            ((finds word second (lastOf last found.text) found.rest).map (fun next =>
              Found.mk (found.text ++ next.text) (found.groups ++ next.groups) next.rest)).filter
                (fun found => tail.length ≤ found.rest.length)) := by
      refine flatMap_filter _ fun found _ outside => List.filter_eq_nil_iff.mpr fun next member => ?_
      obtain ⟨later, inSecond, rfl⟩ := List.mem_map.mp member
      have parts := congrArg List.length (finds_text inSecond)
      have beyond := of_decide_eq_false outside
      rw [List.length_append] at parts
      simp only [decide_eq_true_eq, not_le]
      omega
    rw [narrow, firstHypothesis here, List.flatMap_map]
    refine List.flatMap_congr fun found _ => ?_
    rw [inner, Found.extend]
    dsimp only
    rw [secondHypothesis next, List.map_map, List.map_map]
    rfl
  | alt first second firstHypothesis secondHypothesis =>
    obtain ⟨here, next⟩ := Bool.and_eq_true_iff.mp free
    rw [finds, finds, List.filter_append, firstHypothesis here, secondHypothesis next, List.map_append]
  | group number inner ih =>
    rw [finds, finds, List.filter_map, List.map_map]
    refine (congrArg (List.map _) (ih free last text)).trans ?_
    rw [List.map_map]
    rfl
  | boundary =>
    have same : (text ++ tail).head?.any word = text.head?.any word := by
      cases text with
      | nil => exact apart
      | cons char text => rfl
    rw [finds, finds, same]
    split
    · rfl
    · exact fits [] [] text
  | start | finish | behind | ahead => cases free

end finds

section search

variable {word : Char → Bool} {pattern : Regex} {last : Option Char} {text : List Char}

theorem matchAt_mem {found : Found} (here : matchAt word pattern last text = some found) :
    found ∈ finds word pattern last text ∧ found.text ≠ [] := by
  obtain ⟨first, filled⟩ := Option.filter_eq_some_iff.mp here
  exact ⟨List.mem_of_mem_head? first, of_decide_eq_true filled⟩

/-- A pattern that finds no empty text matches where it finds something. -/
theorem matchAt_isSome (filled : pattern.Filled = true) {found : Found}
    (member : found ∈ finds word pattern last text) : ∃ first, matchAt word pattern last text = some first := by
  cases shape : finds word pattern last text with
  | nil =>
    rw [shape] at member
    cases member
  | cons first others =>
    refine ⟨first, ?_⟩
    rw [matchAt, shape]
    exact Option.filter_some_pos (decide_eq_true (finds_filled filled (shape ▸ List.mem_cons_self)))

theorem finds_of_matchAt_none (filled : pattern.Filled = true)
    (here : matchAt word pattern last text = none) : finds word pattern last text = [] := by
  refine List.eq_nil_iff_forall_not_mem.mpr fun found member => ?_
  obtain ⟨first, there⟩ := matchAt_isSome filled member
  rw [here] at there
  cases there

theorem matchAt_alt {other : Regex} {found : Found}
    (here : matchAt word pattern last text = some found) :
    matchAt word (alt pattern other) last text = some found := by
  obtain ⟨first, filled⟩ := Option.filter_eq_some_iff.mp here
  rw [matchAt, finds, List.head?_append, first]
  exact Option.filter_some_pos filled

theorem matchAt_text {found : Found} (here : matchAt word pattern last text = some found) :
    found.text ++ found.rest = text :=
  finds_text (matchAt_mem here).1

theorem matchAt_begins {allowed : Char → Prop} (begins : pattern.Begins allowed) {char : Char}
    (other : ¬ allowed char) : matchAt word pattern last (char :: text) = none := by
  cases here : matchAt word pattern last (char :: text) with
  | none => rfl
  | some found =>
    obtain ⟨member, -⟩ := matchAt_mem here
    obtain ⟨first, head, fine⟩ := finds_begins begins member
    have parts := congrArg List.head? (finds_text member)
    rw [List.head?_append, head, Option.some_or] at parts
    exact absurd (Option.some.inj parts ▸ fine) other

/-- Behind two characters that are both of a word, or both not, a pattern without anchors matches the
same. -/
theorem matchAt_last (free : pattern.Free = true) {last' : Option Char}
    (same : last.any word = last'.any word) :
    matchAt word pattern last text = matchAt word pattern last' text := by
  rw [matchAt, matchAt, finds_last free same]

/-- In front of text that does not begin with a word, and into which nothing that is found reaches, a
pattern without anchors matches what it matches alone. -/
theorem matchAt_extend (free : pattern.Free = true) {tail : List Char}
    (apart : tail.head?.any word = false)
    (within : ∀ found ∈ finds word pattern last (text ++ tail), tail.length ≤ found.rest.length) :
    matchAt word pattern last (text ++ tail) =
      (matchAt word pattern last text).map (Found.extend tail) := by
  have all : (finds word pattern last (text ++ tail)).filter
      (fun found => tail.length ≤ found.rest.length) = finds word pattern last (text ++ tail) :=
    List.filter_eq_self.mpr fun found member => decide_eq_true (within found member)
  rw [matchAt, matchAt, ← all, finds_append free apart, List.head?_map]
  cases (finds word pattern last text).head? with
  | none => rfl
  | some found =>
    rw [Option.map_some]
    by_cases filled : found.text = []
    · simp [Found.extend, Option.filter, filled]
    · simp [Found.extend, Option.filter, filled]

/-- Nothing that is found reaches into text in which nothing that is found ends. -/
theorem within_of_ends {allowed : Char → Prop} (ends : pattern.Ends allowed) {tail : List Char}
    (others : ∀ char ∈ tail, ¬ allowed char) {found : Found}
    (member : found ∈ finds word pattern last (text ++ tail)) : tail.length ≤ found.rest.length := by
  by_contra beyond
  obtain ⟨char, final, fine⟩ := finds_ends ends member
  -- otherwise the match would end in a character of the text behind
  obtain ⟨taken, front, back⟩ | ⟨left, front, back⟩ := List.append_eq_append_iff.mp (finds_text member)
  · rw [back, List.length_append] at beyond
    omega
  · cases left with
    | nil =>
      rw [List.nil_append] at back
      exact beyond (Nat.le_of_eq (congrArg List.length back))
    | cons first left =>
      refine others char ?_ fine
      rw [back]
      refine List.mem_append_left _ (List.mem_of_getLast? (a := char) ?_)
      rw [front, List.getLast?_append] at final
      cases shape : (first :: left).getLast? with
      | none => cases List.getLast?_eq_none_iff.mp shape
      | some other => rwa [shape, Option.some_or] at final

/-- In front of text that does not begin with a word, and in which no match ends, a pattern without
anchors matches what it matches alone. -/
theorem matchAt_append {allowed : Char → Prop} (free : pattern.Free = true)
    (ends : pattern.Ends allowed) {tail : List Char} (apart : tail.head?.any word = false)
    (others : ∀ char ∈ tail, ¬ allowed char) :
    matchAt word pattern last (text ++ tail) =
      (matchAt word pattern last text).map (Found.extend tail) :=
  matchAt_extend free apart fun _ member => within_of_ends ends others member

theorem pieces_skip (taken rest : List Char) (last : Option Char) :
    pieces word pattern taken.length last (taken ++ rest) =
      pieces word pattern 0 (lastOf last taken) rest := by
  induction taken generalizing last with
  | nil => rfl
  | cons char taken ih => exact ih (some char)

theorem pieces_miss {char : Char} (here : matchAt word pattern last (char :: text) = none) :
    pieces word pattern 0 last (char :: text) = .inl char :: pieces word pattern 0 (some char) text := by
  rw [pieces, here]

/-- Where the pattern matches, the search goes on behind the match. -/
theorem pieces_hit {found : Found} (here : matchAt word pattern last text = some found) :
    pieces word pattern 0 last text =
      .inr found :: pieces word pattern 0 (lastOf last found.text) found.rest := by
  obtain ⟨-, filled⟩ := matchAt_mem here
  have parts := matchAt_text here
  cases taken : found.text with
  | nil => exact absurd taken filled
  | cons char others =>
    rw [taken, List.cons_append] at parts
    rw [← parts] at here ⊢
    rw [pieces, here]
    dsimp only
    rw [taken, List.length_cons, Nat.add_sub_cancel, pieces_skip]
    rfl

theorem search_induction {motive : Option Char → List Char → Prop} (nil : ∀ last, motive last [])
    (miss : ∀ last char text, matchAt word pattern last (char :: text) = none →
      motive (some char) text → motive last (char :: text))
    (hit : ∀ last text found, matchAt word pattern last text = some found →
      motive (lastOf last found.text) found.rest → motive last text)
    (last : Option Char) (text : List Char) : motive last text := by
  induction count : text.length using Nat.strong_induction_on generalizing last text with
  | _ count ih =>
    subst count
    cases here : matchAt word pattern last text with
    | some found =>
      refine hit last text found here (ih _ ?_ _ _ rfl)
      have parts := congrArg List.length (matchAt_text here)
      have filled := List.length_pos_of_ne_nil (matchAt_mem here).2
      rw [List.length_append] at parts
      omega
    | none =>
      cases text with
      | nil => exact nil last
      | cons char text =>
        exact miss last char text here (ih _ (Nat.lt_succ_self _) _ _ rfl)

variable {replacement : (Nat → List Char) → List Char}

theorem sub_miss {char : Char} (here : matchAt word pattern last (char :: text) = none) :
    sub word pattern replacement last (char :: text) =
      char :: sub word pattern replacement (some char) text := by
  rw [sub, pieces_miss here]
  rfl

theorem sub_hit {found : Found} (here : matchAt word pattern last text = some found) :
    sub word pattern replacement last text =
      replacement found.group ++
        sub word pattern replacement (lastOf last found.text) found.rest := by
  rw [sub, pieces_hit here]
  rfl

theorem sub_front {allowed : Char → Prop} (begins : pattern.Begins allowed) (front : List Char)
    (others : ∀ char ∈ front, ¬ allowed char) :
    sub word pattern replacement last (front ++ text) =
      front ++ sub word pattern replacement (lastOf last front) text := by
  induction front generalizing last with
  | nil => rfl
  | cons char front ih =>
    obtain ⟨here, rest⟩ := List.forall_mem_cons.mp others
    rw [List.cons_append, sub_miss (matchAt_begins begins here), ih rest]
    rfl

theorem sub_none {allowed : Char → Prop} (begins : pattern.Begins allowed)
    (others : ∀ char ∈ text, ¬ allowed char) : sub word pattern replacement last text = text := by
  have front : sub word pattern replacement last (text ++ []) =
      text ++ sub word pattern replacement (lastOf last text) [] := sub_front begins text others
  rw [List.append_nil] at front
  exact front.trans (List.append_nil _)

/-- The character in front matters only by whether it is of a word. -/
theorem sub_last (free : pattern.Free = true) {last' : Option Char}
    (same : last.any word = last'.any word) :
    sub word pattern replacement last text = sub word pattern replacement last' text := by
  cases here : matchAt word pattern last text with
  | none =>
    cases text with
    | nil => rfl
    | cons char text =>
      rw [sub_miss here, sub_miss ((matchAt_last free same).symm.trans here)]
  | some found =>
    rw [sub_hit here, sub_hit ((matchAt_last free same).symm.trans here),
      lastOf_ne_nil (matchAt_mem here).2 last last']

/-- Text behind into which no match reaches is searched by itself. -/
theorem sub_extend (free : pattern.Free = true) {tail : List Char}
    (apart : tail.head?.any word = false)
    (within : ∀ last second, second ≠ [] → second <:+ text →
      ∀ found ∈ finds word pattern last (second ++ tail), tail.length ≤ found.rest.length) :
    sub word pattern replacement last (text ++ tail) =
      sub word pattern replacement last text ++
        sub word pattern replacement (lastOf last text) tail := by
  refine @search_induction word pattern (fun last text =>
    (∀ last second, second ≠ [] → second <:+ text →
      ∀ found ∈ finds word pattern last (second ++ tail), tail.length ≤ found.rest.length) →
    sub word pattern replacement last (text ++ tail) =
      sub word pattern replacement last text ++
        sub word pattern replacement (lastOf last text) tail) ?_ ?_ ?_ last text within
  · intro last _
    rfl
  · intro last char text here ih within
    have further : matchAt word pattern last (char :: text ++ tail) = none :=
      (matchAt_extend free apart (within last (char :: text) (List.cons_ne_nil _ _)
        (List.suffix_refl _))).trans (congrArg (Option.map _) here)
    rw [List.cons_append] at further
    rw [List.cons_append, sub_miss here, sub_miss further, ih, List.cons_append]
    · rfl
    · exact fun last second filled suffix =>
        within last second filled (suffix.trans (List.suffix_cons _ _))
  · intro last text found here ih within
    have parts := matchAt_text here
    have filled : text ≠ [] := parts ▸ List.append_ne_nil_of_left_ne_nil (matchAt_mem here).2 _
    have further : matchAt word pattern last (text ++ tail) = some (found.extend tail) :=
      (matchAt_extend free apart (within last text filled (List.suffix_refl _))).trans
        (congrArg (Option.map _) here)
    have rest := ih fun last second filled suffix =>
      within last second filled (suffix.trans (parts ▸ List.suffix_append _ _))
    rw [sub_hit here, sub_hit further, List.append_assoc, ← parts, lastOf_append, ← rest]
    rfl

theorem sub_append {allowed allowed' : Char → Prop} (free : pattern.Free = true)
    (begins : pattern.Begins allowed) (ends : pattern.Ends allowed') {tail : List Char}
    (apart : tail.head?.any word = false) (others : ∀ char ∈ tail, ¬ allowed char ∧ ¬ allowed' char) :
    sub word pattern replacement last (text ++ tail) =
      sub word pattern replacement last text ++ tail := by
  rw [sub_extend free apart fun _ _ _ _ _ member =>
    within_of_ends ends (fun char inTail => (others char inTail).2) member,
    sub_none begins fun char inTail => (others char inTail).1]

/-- A pattern that does not look at the character in front. -/
def Blind : Regex → Bool
  | boundary | start | behind _ => false
  | seq first second | alt first second => first.Blind && second.Blind
  | group _ inner => inner.Blind
  | _ => true

theorem finds_blind {pattern : Regex} (blind : pattern.Blind = true) (last last' : Option Char)
    (text : List Char) : finds word pattern last text = finds word pattern last' text := by
  induction pattern generalizing last last' text with
  | empty | run | finish | ahead => rfl
  | one => cases text <;> rfl
  | seq first second firstHypothesis secondHypothesis =>
    obtain ⟨here, next⟩ := Bool.and_eq_true_iff.mp blind
    rw [finds, finds, firstHypothesis here last last']
    refine List.flatMap_congr fun found _ => ?_
    rw [secondHypothesis next (lastOf last found.text) (lastOf last' found.text)]
  | alt first second firstHypothesis secondHypothesis =>
    obtain ⟨here, next⟩ := Bool.and_eq_true_iff.mp blind
    rw [finds, finds, firstHypothesis here last last', secondHypothesis next last last']
  | group number inner ih => rw [finds, finds, ih blind last last']
  | boundary | start | behind => cases blind

theorem sub_blind (blind : pattern.Blind = true) (last last' : Option Char) :
    sub word pattern replacement last text = sub word pattern replacement last' text := by
  have same : matchAt word pattern last text = matchAt word pattern last' text := by
    rw [matchAt, matchAt, finds_blind blind last last']
  cases here : matchAt word pattern last text with
  | none =>
    cases text with
    | nil => rfl
    | cons char text => rw [sub_miss here, sub_miss (same.symm.trans here)]
  | some found =>
    rw [sub_hit here, sub_hit (same.symm.trans here), lastOf_ne_nil (matchAt_mem here).2 last last']

/-- A replacement that weighs as much as what it replaces keeps the weight. -/
theorem sub_weight {weight : Char → Int}
    (balanced : ∀ last text found, found ∈ finds word pattern last text →
      weigh weight (replacement found.group) = weigh weight found.text) :
    weigh weight (sub word pattern replacement last text) = weigh weight text := by
  refine @search_induction word pattern (fun last text =>
    weigh weight (sub word pattern replacement last text) = weigh weight text) ?_ ?_ ?_ last text
  · intro last
    rfl
  · intro last char text here ih
    rw [sub_miss here]
    exact congrArg (weight char + ·) ih
  · intro last text found here ih
    rw [sub_hit here, weigh_append, ih, balanced last text found (matchAt_mem here).1,
      ← weigh_append, matchAt_text here]

/-- No match begins where what matches would have a character that is not there. -/
theorem matchAt_contains {kind : Char → Prop} (contains : pattern.Contains kind)
    (others : ∀ char ∈ text, ¬ kind char) : matchAt word pattern last text = none := by
  cases here : matchAt word pattern last text with
  | none => rfl
  | some found =>
    obtain ⟨char, taken, fine⟩ := finds_contains contains (matchAt_mem here).1
    exact absurd fine (others char (matchAt_text here ▸ List.mem_append_left _ taken))

/-- A search passes the characters of a front by in which it matches nowhere. -/
theorem pieces_front {front back : List Char}
    (nowhere : ∀ first second, first ++ second = front → second ≠ [] →
      matchAt word pattern (lastOf last first) (second ++ back) = none) :
    pieces word pattern 0 last (front ++ back) =
      front.map Sum.inl ++ pieces word pattern 0 (lastOf last front) back := by
  induction front generalizing last with
  | nil => rfl
  | cons char front ih =>
    have here : matchAt word pattern last (char :: (front ++ back)) = none :=
      nowhere [] (char :: front) rfl (List.cons_ne_nil _ _)
    rw [List.cons_append, pieces_miss here, @ih (some char)]
    · rfl
    · intro first second parts filled
      exact nowhere (char :: first) second (congrArg (char :: ·) parts) filled

theorem pieces_none
    (nowhere : ∀ front rest, front ++ rest = text → matchAt word pattern (lastOf last front) rest = none) :
    pieces word pattern 0 last text = text.map Sum.inl := by
  have all := @pieces_front word pattern last text [] fun first second parts _ => by
    rw [List.append_nil]
    exact nowhere first second parts
  rw [List.append_nil] at all
  exact all.trans (List.append_nil _)

theorem finditer_none
    (nowhere : ∀ front rest, front ++ rest = text → matchAt word pattern (lastOf none front) rest = none) :
    finditer word pattern text = [] := by
  rw [finditer, pieces_none nowhere, List.filterMap_map]
  exact List.filterMap_eq_nil_iff.mpr fun char _ => rfl

theorem sub_nowhere
    (nowhere : ∀ front rest, front ++ rest = text → matchAt word pattern (lastOf last front) rest = none) :
    sub word pattern replacement last text = text := by
  rw [sub, pieces_none nowhere, List.flatMap_map]
  exact List.flatMap_singleton' text

theorem mem_finditer {found : Found} (member : found ∈ finditer word pattern text) :
    ∃ front, front ++ (found.text ++ found.rest) = text ∧
      matchAt word pattern (lastOf none front) (found.text ++ found.rest) = some found := by
  rw [finditer] at member
  generalize (none : Option Char) = last at member ⊢
  refine @search_induction word pattern (fun last text =>
    found ∈ (pieces word pattern 0 last text).filterMap Sum.getRight? →
      ∃ front, front ++ (found.text ++ found.rest) = text ∧
        matchAt word pattern (lastOf last front) (found.text ++ found.rest) = some found)
    ?_ ?_ ?_ last text member
  · intro last inNone
    cases inNone
  · intro last char text here ih inPieces
    rw [pieces_miss here] at inPieces
    obtain ⟨front, parts, there⟩ := ih inPieces
    exact ⟨char :: front, congrArg (char :: ·) parts, there⟩
  · intro last text first here ih inPieces
    rw [pieces_hit here] at inPieces
    rcases List.mem_cons.mp inPieces with rfl | inLater
    · refine ⟨[], matchAt_text here, ?_⟩
      rw [matchAt_text here]
      exact here
    · obtain ⟨front, parts, there⟩ := ih inLater
      refine ⟨first.text ++ front, ?_, ?_⟩
      · rw [List.append_assoc, parts, matchAt_text here]
      · rw [lastOf_append]
        exact there

/-- A match as long as the text is the match at its beginning. -/
theorem finditer_whole {found : Found} (member : found ∈ finditer word pattern text)
    (long : text.length ≤ found.text.length) :
    matchAt word pattern none text = some found ∧ found.rest = [] := by
  obtain ⟨front, parts, here⟩ := mem_finditer member
  have lengths := congrArg List.length parts
  rw [List.length_append, List.length_append] at lengths
  obtain rfl : front = [] := List.length_eq_zero_iff.mp (by omega)
  rw [← parts]
  exact ⟨here, List.length_eq_zero_iff.mp (by omega)⟩

theorem finditer_match {found : Found} (here : matchAt word pattern none text = some found)
    (whole : found.rest = []) : finditer word pattern text = [found] := by
  rw [finditer, pieces_hit here, whole]
  rfl

theorem search_none (nothing : search word pattern text = none) (front rest : List Char)
    (parts : front ++ rest = text) : matchAt word pattern (lastOf none front) rest = none := by
  rw [search, List.head?_eq_none_iff, finditer] at nothing
  generalize (none : Option Char) = last at nothing ⊢
  induction front generalizing last text with
  | nil =>
    obtain rfl : rest = text := parts
    cases here : matchAt word pattern last rest with
    | none => exact here
    | some found =>
      rw [pieces_hit here] at nothing
      cases nothing
  | cons char front ih =>
    subst parts
    cases here : matchAt word pattern last (char :: (front ++ rest)) with
    | none =>
      rw [List.cons_append, pieces_miss here] at nothing
      exact ih rfl (some char) nothing
    | some found =>
      rw [List.cons_append, pieces_hit here] at nothing
      cases nothing

theorem lastOf_some (char : Char) (text : List Char) : ∃ other, lastOf (some char) text = some other := by
  induction text generalizing char with
  | nil => exact ⟨char, rfl⟩
  | cons other text ih => exact ih other

/-- A pattern that matches at the beginning of a text only. -/
def StartOnly : Regex → Bool
  | start => true
  | seq first _ => first.StartOnly
  | alt first second => first.StartOnly && second.StartOnly
  | _ => false

theorem finds_startOnly (only : pattern.StartOnly = true) (char : Char) (text : List Char) :
    finds word pattern (some char) text = [] := by
  induction pattern generalizing text with
  | start => rfl
  | seq first second firstHypothesis secondHypothesis =>
    rw [finds, firstHypothesis only]
    rfl
  | alt first second firstHypothesis secondHypothesis =>
    obtain ⟨here, there⟩ := Bool.and_eq_true_iff.mp only
    rw [finds, firstHypothesis here, secondHypothesis there]
    rfl
  | empty | one | run | group | boundary | finish | behind | ahead => cases only

theorem sub_startOnly (only : pattern.StartOnly = true) (char : Char) :
    sub word pattern replacement (some char) text = text := by
  refine sub_nowhere fun front rest _ => ?_
  obtain ⟨other, same⟩ := lastOf_some char front
  rw [same, matchAt, finds_startOnly only]
  rfl

/-- A pattern that matches at the beginning only replaces its match there. -/
theorem sub_start_hit (only : pattern.StartOnly = true) {found : Found}
    (here : matchAt word pattern none text = some found) :
    sub word pattern replacement none text = replacement found.group ++ found.rest := by
  rw [sub_hit here]
  cases taken : found.text with
  | nil => exact absurd taken (matchAt_mem here).2
  | cons char others =>
    obtain ⟨other, same⟩ := lastOf_some char others
    rw [lastOf, same, sub_startOnly only]

/-- A pattern that matches at the beginning only keeps a text that it does not match there. -/
theorem sub_start_miss (only : pattern.StartOnly = true)
    (here : matchAt word pattern none text = none) :
    sub word pattern replacement none text = text := by
  cases text with
  | nil => rfl
  | cons char text => rw [sub_miss here, sub_startOnly only]

theorem sub_end {front back : List Char}
    (nowhere : ∀ first second, first ++ second = front → second ≠ [] →
      matchAt word pattern (lastOf last first) (second ++ back) = none)
    {found : Found} (here : matchAt word pattern (lastOf last front) back = some found)
    (whole : found.rest = []) :
    sub word pattern replacement last (front ++ back) = front ++ replacement found.group := by
  rw [sub, pieces_front nowhere, pieces_hit here, whole, List.flatMap_append, List.flatMap_map]
  exact congrArg₂ (· ++ ·) (List.flatMap_singleton' front) (List.append_nil _)

theorem runs_head (admits : Char → Bool) (text : List Char) :
    (runs admits text).head? = some (text.takeWhile admits, text.dropWhile admits) := by
  induction text with
  | nil => rfl
  | cons char text ih =>
    rw [runs]
    split
    next admitted =>
      rw [List.head?_append, List.head?_map, ih, List.takeWhile_cons_of_pos admitted,
        List.dropWhile_cons_of_pos admitted]
      rfl
    next refused =>
      rw [List.takeWhile_cons_of_neg refused, List.dropWhile_cons_of_neg refused]
      rfl

theorem matchAt_run {admits : Char → Bool} {char : Char} (admitted : admits char = true) :
    matchAt word (run admits 1) last (char :: text) =
      some ⟨(char :: text).takeWhile admits, [], (char :: text).dropWhile admits⟩ := by
  have long : 1 ≤ ((char :: text).takeWhile admits).length := by
    rw [List.takeWhile_cons_of_pos admitted]
    exact Nat.le_add_left _ _
  obtain ⟨others, shape⟩ := List.head?_eq_some_iff.mp (runs_head admits (char :: text))
  rw [matchAt, finds, shape, List.filter_cons, if_pos (decide_eq_true long)]
  exact Option.filter_some_pos (decide_eq_true (List.ne_nil_of_length_pos long))

/-- Replacing the runs of a class by nothing leaves the other characters. -/
theorem sub_runs {admits : Char → Bool} :
    sub word (run admits 1) (fun _ => []) last text = text.filter (fun char => !admits char) := by
  refine @search_induction word (run admits 1) (fun last text =>
    sub word (run admits 1) (fun _ => []) last text = text.filter (fun char => !admits char))
    ?_ ?_ ?_ last text
  · intro last
    rfl
  · intro last char text here ih
    cases admitted : admits char with
    | true =>
      rw [matchAt_run admitted] at here
      cases here
    | false =>
      rw [sub_miss here, ih, List.filter_cons_of_pos (by rw [admitted]; rfl)]
  · intro last text found here ih
    rw [sub_hit here, ih, List.nil_append, ← matchAt_text here, List.filter_append]
    obtain ⟨split, inRuns, rfl⟩ := List.mem_map.mp (matchAt_mem here).1
    have all := (runs_spec (List.mem_of_mem_filter inRuns)).2
    have none : split.1.filter (fun char => !admits char) = [] :=
      List.filter_eq_nil_iff.mpr fun char taken => by simp [all char taken]
    rw [none, List.nil_append]

/-- Inside of a word, where a pattern matches nowhere, the characters are kept. -/
theorem sub_inside {kind : Char → Prop} (ofWord : ∀ char, kind char → word char = true)
    (inside : ∀ last char text, last.any word = true → kind char →
      matchAt word pattern last (char :: text) = none) {front : List Char}
    (all : ∀ char ∈ front, kind char) (behind : last.any word = true) :
    sub word pattern replacement last (front ++ text) =
      front ++ sub word pattern replacement (lastOf last front) text := by
  induction front generalizing last with
  | nil => rfl
  | cons char front ih =>
    obtain ⟨here, others⟩ := List.forall_mem_cons.mp all
    rw [List.cons_append, sub_miss (inside last char _ behind here),
      @ih (some char) others (ofWord char here)]
    rfl

/-- Behind the character of a word, a word is replaced less: where its replacement is made of its
characters, what is left at the beginning of a text is part of what is left there. -/
theorem sub_sublist {kind : Char → Prop} (ofWord : ∀ char, kind char → word char = true)
    (inside : ∀ last char text, last.any word = true → kind char →
      matchAt word pattern last (char :: text) = none) {char : Char} (first : kind char)
    (behind : last.any word = true)
    (shorter : ∀ found ∈ finds word pattern none (char :: text),
      (replacement found.group).Sublist found.text ∧ ∀ char ∈ found.text, kind char) :
    (sub word pattern replacement none (char :: text)).Sublist
      (sub word pattern replacement last (char :: text)) := by
  have later := inside last char text behind first
  cases here : matchAt word pattern none (char :: text) with
  | none =>
    rw [sub_miss here, sub_miss later]
  | some found =>
    obtain ⟨member, filled⟩ := matchAt_mem here
    obtain ⟨fits, all⟩ := shorter found member
    rw [sub_hit here, ← matchAt_text here, sub_inside ofWord inside all behind,
      lastOf_ne_nil filled none last]
    exact fits.append (List.Sublist.refl _)

end search

end Regex

end SpecBlock
