import Mathlib
import SpecBlock.Scoring.MathAnswers

/-!
# What is extracted from a reference and from a boxed prediction

A boxed prediction gives what its box holds. A reference has no box: it goes through the rules for free
text. When it announces nothing and ends no sentence, all that is left of them is the last one, for a bare
answer: what the presentation trims is taken off, and the rest has to be an answer as a whole.
-/

namespace SpecBlock.Scoring

open Regex

variable {unicode : Unicode}

section spaces

/-- Nothing but spaces. -/
def Blank (unicode : Unicode) (text : List Char) : Prop := ∀ char ∈ text, unicode.isSpace char = true

/-- No space at either end. -/
structure Stripped (unicode : Unicode) (text : List Char) : Prop where
  head : ∀ char, text.head? = some char → unicode.isSpace char = false
  last : ∀ char, text.getLast? = some char → unicode.isSpace char = false

/-- The first character that does not have a property is not dropped. -/
theorem dropWhile_blank {front text : List Char} (blank : Blank unicode front)
    (head : ∀ char, text.head? = some char → unicode.isSpace char = false) :
    (front ++ text).dropWhile unicode.isSpace = text := by
  induction front with
  | nil =>
    cases text with
    | nil => rfl
    | cons char text =>
      exact List.dropWhile_cons_of_neg (Bool.eq_false_iff.mp (head char rfl))
  | cons char front ih =>
    obtain ⟨here, others⟩ := List.forall_mem_cons.mp blank
    rw [List.cons_append, List.dropWhile_cons_of_pos here]
    exact ih others

theorem strip_spec (unicode : Unicode) (text : List Char) :
    ∃ front back, Blank unicode front ∧ Blank unicode back ∧
    text = front ++ strip unicode text ++ back ∧ Stripped unicode (strip unicode text) := by
  refine ⟨text.takeWhile unicode.isSpace, (text.dropWhile unicode.isSpace).rtakeWhile unicode.isSpace,
    fun char member => List.mem_takeWhile_imp member, fun char member => ?_, ?_, ?_, ?_⟩
  · rw [List.rtakeWhile, List.mem_reverse] at member
    exact List.mem_takeWhile_imp member
  · rw [List.append_assoc, strip, List.rdropWhile_append_rtakeWhile, List.takeWhile_append_dropWhile]
  · intro char head
    obtain ⟨others, shape⟩ := List.head?_eq_some_iff.mp head
    have start := (List.rdropWhile_prefix unicode.isSpace (l := text.dropWhile unicode.isSpace))
    rw [strip] at shape
    rw [shape] at start
    obtain ⟨rest, whole⟩ := start
    have first := List.head?_dropWhile_not unicode.isSpace text
    rw [← whole] at first
    simpa using first
  · intro char final
    rw [strip] at final
    have filled : (text.dropWhile unicode.isSpace).rdropWhile unicode.isSpace ≠ [] := by
      intro nothing
      rw [nothing] at final
      cases final
    have refused := List.rdropWhile_last_not unicode.isSpace _ filled
    rw [List.getLast?_eq_some_getLast filled] at final
    rw [← Option.some.inj final]
    exact Bool.eq_false_iff.mpr refused

theorem strip_between {front text back : List Char} (blank : Blank unicode front)
    (blank' : Blank unicode back) (stripped : Stripped unicode text) (filled : text ≠ []) :
    strip unicode (front ++ text ++ back) = text := by
  have head : ∀ char, (text ++ back).head? = some char → unicode.isSpace char = false := by
    intro char first
    rw [List.head?_append_of_ne_nil _ filled] at first
    exact stripped.head char first
  rw [strip, List.append_assoc, dropWhile_blank blank head, List.rdropWhile, List.reverse_append,
    dropWhile_blank, List.reverse_reverse]
  · exact fun char member => blank' char (List.mem_reverse.mp member)
  · intro char first
    rw [List.head?_reverse] at first
    exact stripped.last char first

theorem strip_stripped {text : List Char} (stripped : Stripped unicode text) :
    strip unicode text = text := by
  cases text with
  | nil => rfl
  | cons char text =>
    have same : strip unicode ([] ++ char :: text ++ []) = char :: text :=
      strip_between nofun nofun stripped (List.cons_ne_nil _ _)
    rwa [List.append_nil, List.nil_append] at same

end spaces

section boxes

/-- Whether every closing brace of a text has its opening one, with this many open in front of it. -/
def balanced : Nat → List Char → Bool
  | depth, [] => depth == 0
  | depth, char :: rest =>
    if char = '{' then balanced (depth + 1) rest
    else if char = '}' then (if depth = 0 then false else balanced (depth - 1) rest)
    else balanced depth rest

/-- The brace behind a balanced text closes the one in front. -/
theorem upToClosing_balanced {depth : Nat} {text : List Char} (even : balanced depth text = true) :
    upToClosing '{' '}' (depth + 1) (text ++ ['}']) = some (text ++ ['}']) := by
  induction text generalizing depth with
  | nil =>
    obtain rfl : depth = 0 := beq_iff_eq.mp even
    rfl
  | cons char text ih =>
    rw [List.cons_append, upToClosing]
    rw [balanced] at even
    split at even
    next opening => rw [if_pos opening, ih even, Option.map_some]
    next other =>
      rw [if_neg other]
      split at even
      next closing =>
        split at even
        next => cases even
        next deeper =>
          obtain ⟨outer, rfl⟩ := Nat.exists_eq_succ_of_ne_zero deeper
          rw [if_pos closing, if_neg (by omega), Nat.succ_eq_add_one, Nat.add_sub_cancel]
          rw [Nat.succ_eq_add_one, Nat.add_sub_cancel] at even
          rw [ih even, Option.map_some]
      next inner => rw [if_neg inner, ih even, Option.map_some]

theorem extractBalancedBraces_balanced {text : List Char} (even : balanced 0 text = true) :
    extractBalancedBraces ('{' :: (text ++ ['}'])) = some text := by
  rw [extractBalancedBraces, List.head?_cons, if_pos rfl, upToClosing, if_pos rfl,
    upToClosing_balanced even]
  simp

/-- A text that ends in a box. -/
def boxedEnd (before content : List Char) : List Char := before ++ (boxed ++ '{' :: (content ++ ['}']))

theorem matchAt_boxed {last : Option Char} {text : List Char} (absent : ¬ boxed <+: text) :
    matchAt unicode.isWord (seq (lit boxed) (spaces unicode)) last text = none := by
  cases here : matchAt unicode.isWord (seq (lit boxed) (spaces unicode)) last text with
  | none => rfl
  | some found =>
    obtain ⟨front, inLit, -⟩ := mem_seq.mp (matchAt_mem here).1
    obtain ⟨rest, parts, -⟩ := mem_lit.mp inLit
    exact absurd ⟨rest, parts.symm⟩ absent

/-- A box is not announced by a text in front of it that holds none. -/
theorem boxed_not_announced {second rest : List Char} (filled : second ≠ [])
    (absent : ¬ boxed <:+: second) : ¬ boxed <+: second ++ (boxed ++ rest) := by
  intro announced
  have long : second.length < boxed.length := by
    by_contra short
    exact absent ((List.prefix_of_prefix_length_le announced (List.prefix_append second _)
      (Nat.not_lt.mp short)).isInfix)
  -- the backslash behind the text would stand inside of the command
  have inside : boxed[second.length]? = some '\\' := by
    obtain ⟨others, whole⟩ := announced
    have char := congrArg (fun text => text[second.length]?) whole
    simp only [List.getElem?_append_left long] at char
    rw [char, List.getElem?_append_right (Nat.le_refl _), Nat.sub_self]
    rfl
  have positive := List.length_pos_of_ne_nil filled
  have short : second.length < 6 := long
  interval_cases second.length <;> simp [boxed] at inside

/-- A prediction that ends in its only box gives what the box holds. -/
theorem extractMathAnswer_boxed {before content : List Char} (even : balanced 0 content = true)
    (absent : ¬ boxed <:+: content) (once : ¬ boxed <:+: before) :
    extractMathAnswer unicode (boxedEnd before content) = some content := by
  have brace : unicode.isSpace '{' = false := by
    rw [unicode.asciiSpace '{' (by decide)]
    decide
  have hit (last : Option Char) : matchAt unicode.isWord (seq (lit boxed) (spaces unicode)) last
      (boxed ++ '{' :: (content ++ ['}'])) = some ⟨boxed, [], '{' :: (content ++ ['}'])⟩ := by
    have found : (⟨boxed, [], '{' :: (content ++ ['}'])⟩ : Found) ∈
        finds unicode.isWord (seq (lit boxed) (spaces unicode)) last
          (boxed ++ '{' :: (content ++ ['}'])) :=
      mem_seq.mpr ⟨_, mem_lit.mpr ⟨_, rfl, rfl⟩, _,
        mem_run.mpr ⟨[], _, rfl, nofun, Nat.le_refl _, rfl⟩, rfl⟩
    obtain ⟨first, here⟩ := matchAt_isSome rfl found
    obtain ⟨front, inLit, next, inRun, same⟩ := mem_seq.mp (matchAt_mem here).1
    obtain ⟨rest, parts, rfl⟩ := mem_lit.mp inLit
    obtain rfl := List.append_cancel_left parts
    obtain ⟨blank, left, parts, all, -, rfl⟩ := mem_run.mp inRun
    cases blank with
    | nil =>
      obtain rfl : '{' :: (content ++ ['}']) = left := parts
      rw [here, same]
      rfl
    | cons char blank =>
      have first := all char List.mem_cons_self
      rw [← List.head_eq_of_cons_eq parts, brace] at first
      cases first
  have behind (front rest : List Char) (parts : front ++ rest = '{' :: (content ++ ['}'])) :
      matchAt unicode.isWord (seq (lit boxed) (spaces unicode)) (lastOf (lastOf none (before ++ boxed)) front)
        rest = none := by
    refine matchAt_boxed fun start => ?_
    -- the braces are not part of the command
    have inBraces : boxed <:+: '{' :: (content ++ ['}']) :=
      start.isInfix.trans (parts ▸ (List.suffix_append front rest).isInfix)
    obtain ⟨left, right, whole⟩ := inBraces
    cases left with
    | nil => exact absurd (List.head_eq_of_cons_eq whole) (by decide)
    | cons char left =>
      have inner : left ++ boxed ++ right = content ++ ['}'] := List.tail_eq_of_cons_eq whole
      rcases List.eq_nil_or_concat right with rfl | ⟨right, final, rfl⟩
      · have last := congrArg List.getLast? inner
        rw [List.append_nil, List.getLast?_append, List.getLast?_append] at last
        simp [boxed] at last
      · rw [List.concat_eq_append, ← List.append_assoc] at inner
        exact absent ⟨left, right, (List.append_inj' inner rfl).1⟩
  have boxes : finditer unicode.isWord (seq (lit boxed) (spaces unicode)) (boxedEnd before content) =
      [⟨boxed, [], '{' :: (content ++ ['}'])⟩] := by
    rw [finditer, boxedEnd, pieces_front, pieces_hit (hit _), List.filterMap_append,
      List.filterMap_map]
    · have nothing : before.filterMap (Sum.getRight? ∘ Sum.inl : Char → Option Found) = [] :=
        List.filterMap_eq_nil_iff.mpr fun char _ => rfl
      have later : (pieces unicode.isWord (seq (lit boxed) (spaces unicode)) 0
          (lastOf (lastOf none before) boxed) ('{' :: (content ++ ['}']))).filterMap Sum.getRight? =
          ([] : List Found) := by
        rw [← lastOf_append, pieces_none behind, List.filterMap_map]
        exact List.filterMap_eq_nil_iff.mpr fun char _ => rfl
      rw [nothing, List.nil_append]
      exact congrArg (List.cons _) later
    · intro first second parts filled
      refine matchAt_boxed (boxed_not_announced filled fun inside => once ?_)
      exact inside.trans (parts ▸ (List.suffix_append first second).isInfix)
  rw [extractMathAnswer, boxes]
  simp only [List.reverse_cons, List.reverse_nil, List.nil_append, List.findSome?_cons,
    extractBalancedBraces_balanced even]

end boxes

section references

/-- The words that announce a conclusion, without what may follow the first of them. -/
def announcements : Regex :=
  any [anyCase ['f', 'i', 'n', 'a', 'l'], anyCase ['a', 'n', 's', 'w', 'e', 'r'],
    anyCase ['c', 'o', 'n', 'c', 'l', 'u', 's', 'i', 'o', 'n'],
    anyCase ['t', 'h', 'e', 'r', 'e', 'f', 'o', 'r', 'e'], anyCase ['t', 'h', 'u', 's'],
    anyCase ['h', 'e', 'n', 'c', 'e']]

/-- One of the words a conclusion is searched for, by itself. -/
def announcingWord : Regex := row [boundary, alt announcements copulaWords, boundary]

/-- A reference on one line with balanced braces, without a box, an equality or the end of a sentence, and
without any of the words a conclusion is searched for. -/
structure BareReference (unicode : Unicode) (reference : List Char) : Prop where
  singleLine : ∀ char ∈ reference, isLineBreak char = false
  even : balanced 0 reference = true
  unboxed : ¬ boxed <:+: reference
  noEquality : '=' ∉ reference
  unpunctuated : ∀ front char rest, reference = front ++ char :: rest → endsSentence char = true →
    ∃ next, rest.head? = some next ∧ unicode.isSpace next = false
  wordless : search unicode.isWord announcingWord reference = none

theorem isAlpha_code {char : Char} (alpha : char.isAlpha = true) :
    65 ≤ char.toNat ∧ char.toNat ≤ 122 := by
  simp only [Char.isAlpha, Char.isUpper, Char.isLower, Bool.or_eq_true, Bool.and_eq_true,
    decide_eq_true_eq, ge_iff_le, UInt32.le_iff_toNat_le] at alpha
  have codes : 'A'.val.toNat = 65 ∧ 'Z'.val.toNat = 90 ∧ 'a'.val.toNat = 97 ∧ 'z'.val.toNat = 122 :=
    ⟨rfl, rfl, rfl, rfl⟩
  have code : char.toNat = char.val.toNat := rfl
  omega

theorem isAlpha_word {char : Char} (alpha : char.isAlpha = true) : unicode.isWord char = true := by
  have code := isAlpha_code alpha
  rw [unicode.asciiWord char (by omega), Char.isAlphanum, alpha]
  rfl

/-- A character whose small form is a small letter is a letter. -/
theorem isAlpha_toLower {char : Char} (small : char.toLower.isLower = true) : char.isAlpha = true := by
  rw [Char.isAlpha, Bool.or_eq_true]
  rw [Char.toLower] at small
  split at small
  next upper => exact .inl (decide_eq_true upper)
  next => exact .inr small

theorem sameLetter_word {letter char : Char} (small : letter.isLower = true)
    (same : sameLetter letter char = true) : unicode.isWord char = true := by
  rw [sameLetter] at same
  simp only [Bool.or_eq_true, Bool.and_eq_true, beq_iff_eq] at same
  rcases same with ((lower | ⟨-, rfl | rfl⟩) | ⟨-, rfl⟩) | ⟨-, rfl⟩
  · exact isAlpha_word (isAlpha_toLower (lower ▸ small))
  · exact unicode.dottedI.1
  · exact unicode.dotlessI.1
  · exact unicode.longS.1
  · exact unicode.kelvin.1

/-- A pattern of a word in any case takes characters of words. -/
theorem anyCase_within {word : List Char} (small : ∀ letter ∈ word, letter.isLower = true) :
    (anyCase word).Within (fun char => unicode.isWord char = true) := by
  induction word with
  | nil => exact trivial
  | cons letter word ih =>
    obtain ⟨here, others⟩ := List.forall_mem_cons.mp small
    exact ⟨fun char same => sameLetter_word here same, ih others⟩

/-- The conclusion words at a position, without what may follow `final`. -/
theorem mem_conclusionWords {last : Option Char} {text : List Char} {found : Found}
    (member : found ∈ finds unicode.isWord (conclusionWords unicode) last text)
    (closed : (lastOf last found.text).any unicode.isWord ≠ found.rest.head?.any unicode.isWord) :
    ∃ first ∈ finds unicode.isWord announcements last text,
      (lastOf last first.text).any unicode.isWord ≠ first.rest.head?.any unicode.isWord := by
  rw [conclusionWords, mem_any] at member
  obtain ⟨pattern, inPatterns, inPattern⟩ := member
  rcases List.mem_cons.mp inPatterns with rfl | inOthers
  · obtain ⟨final, inFinal, next, inNext, rfl⟩ := mem_seq.mp inPattern
    refine ⟨final, mem_any.mpr ⟨_, .head _, inFinal⟩, ?_⟩
    rcases List.mem_append.mp inNext with inMore | inNone
    · -- `final` is followed by a space
      obtain ⟨blank, inBlank, -, -, -⟩ := mem_seq.mp inMore
      obtain ⟨front, rest, parts, all, long, -⟩ := mem_run.mp inBlank
      have letters : ∀ char ∈ final.text, unicode.isWord char = true :=
        finds_within (anyCase_within (by decide)) inFinal
      have filled : final.text ≠ [] := finds_filled rfl inFinal
      rw [lastOf_word filled letters, parts]
      cases front with
      | nil => exact absurd long (by decide)
      | cons char front =>
        rw [List.cons_append, List.head?_cons, Option.any_some,
          (unicode.space char (all char List.mem_cons_self)).1]
        decide
    · rw [List.mem_singleton.mp inNone] at closed
      simpa using closed
  · refine ⟨found, mem_any.mpr ⟨pattern, List.mem_cons_of_mem _ inOthers, inPattern⟩, closed⟩

/-- Where a conclusion or a copula is found, one of the words stands by itself. -/
theorem matchAt_announcing {last : Option Char} {text : List Char}
    (here : matchAt unicode.isWord announcingWord last text = none) :
    matchAt unicode.isWord (explicit unicode) last text = none ∧
      matchAt unicode.isWord (copula unicode) last text = none := by
  have nothing := finds_of_matchAt_none rfl here
  have refuse (first : Found)
      (inWords : first ∈ finds unicode.isWord (alt announcements copulaWords) last text)
      (opened : last.any unicode.isWord ≠ text.head?.any unicode.isWord)
      (closed : (lastOf last first.text).any unicode.isWord ≠ first.rest.head?.any unicode.isWord) :
      False := by
    refine List.not_mem_nil (nothing ▸ mem_seq.mpr ⟨_, mem_boundary.mpr ⟨opened, rfl⟩, _,
      mem_seq.mpr ⟨first, inWords, _, mem_boundary.mpr ⟨closed, rfl⟩, rfl⟩, rfl⟩)
  constructor
  · refine Option.eq_none_iff_forall_ne_some.mpr fun found there => ?_
    obtain ⟨_, opening, next, inNext, -⟩ := mem_seq.mp (matchAt_mem there).1
    obtain ⟨opened, rfl⟩ := mem_boundary.mp opening
    obtain ⟨first, inWords, rest, inRest, -⟩ := mem_seq.mp inNext
    obtain ⟨_, closing, -⟩ := mem_seq.mp inRest
    obtain ⟨front, inFront, closed⟩ := mem_conclusionWords inWords (mem_boundary.mp closing).1
    exact refuse front (List.mem_append_left _ inFront) opened closed
  · refine Option.eq_none_iff_forall_ne_some.mpr fun found there => ?_
    obtain ⟨_, opening, next, inNext, -⟩ := mem_seq.mp (matchAt_mem there).1
    obtain ⟨opened, rfl⟩ := mem_boundary.mp opening
    obtain ⟨first, inWords, rest, inRest, -⟩ := mem_seq.mp inNext
    obtain ⟨_, closing, -⟩ := mem_seq.mp inRest
    exact refuse first (List.mem_append_right _ inWords) opened (mem_boundary.mp closing).1

variable {reference : List Char}

/-- The spaces around a reference hide no word: none stands by itself in what is stripped. -/
theorem strip_wordless (bare : BareReference unicode reference) (front rest : List Char)
    (parts : front ++ rest = strip unicode reference) :
    matchAt unicode.isWord announcingWord (lastOf none front) rest = none := by
  obtain ⟨before, behind, blank, blank', whole, -⟩ := strip_spec unicode reference
  have there := search_none bare.wordless (before ++ front) (rest ++ behind) (by
    rw [whole, ← parts]
    simp only [List.append_assoc])
  have apart : behind.head?.any unicode.isWord = false := by
    cases behind with
    | nil => rfl
    | cons char behind => exact (unicode.space char (blank' char List.mem_cons_self)).1
  have same : (lastOf none (before ++ front)).any unicode.isWord =
      (lastOf none front).any unicode.isWord := by
    cases front with
    | nil =>
      rw [List.append_nil]
      cases before with
      | nil => rfl
      | cons char before =>
        rw [lastOf_getLast (List.cons_ne_nil _ _), List.getLast?_eq_some_getLast (List.cons_ne_nil _ _)]
        exact (unicode.space _ (blank _ (List.getLast_mem _))).1
    | cons char front => rw [lastOf_append, lastOf_ne_nil (List.cons_ne_nil _ _)]
  have extended := @finds_append unicode.isWord announcingWord rfl behind apart (lastOf none front) rest
  rw [finds_last rfl same.symm, finds_of_matchAt_none rfl there, List.filter_nil] at extended
  rw [matchAt, List.map_eq_nil_iff.mp extended.symm]
  rfl

theorem mem_strip {char : Char} (member : char ∈ strip unicode reference) : char ∈ reference := by
  obtain ⟨front, back, -, -, whole, -⟩ := strip_spec unicode reference
  rw [whole]
  exact List.mem_append_left _ (List.mem_append_right _ member)

/-- Behind a mark that could end a sentence the stripped reference goes on without a space. -/
theorem strip_unpunctuated (bare : BareReference unicode reference) {front rest : List Char}
    {char : Char} (parts : strip unicode reference = front ++ char :: rest)
    (mark : endsSentence char = true) : ∃ next, rest.head? = some next ∧ unicode.isSpace next = false := by
  obtain ⟨before, behind, -, blank, whole, -⟩ := strip_spec unicode reference
  rw [parts] at whole
  obtain ⟨next, head, visible⟩ := bare.unpunctuated (before ++ front) char (rest ++ behind)
    (by rw [whole]; simp only [List.append_assoc, List.cons_append]) mark
  cases rest with
  | nil =>
    have spaced := blank next (List.mem_of_mem_head? head)
    rw [spaced] at visible
    cases visible
  | cons other rest => exact ⟨next, head, visible⟩

/-- The last segment of a bare reference is the stripped reference, and ends no sentence. -/
theorem lastConclusionSegment_bare (bare : BareReference unicode reference) :
    lastConclusionSegment unicode reference = (strip unicode reference, false) := by
  obtain ⟨-, -, -, -, -, stripped⟩ := strip_spec unicode reference
  have line : (strip unicode reference).splitOnP isLineBreak = [strip unicode reference] :=
    List.splitOnP_eq_singleton fun char member => bare.singleLine char (mem_strip member)
  by_cases nothing : strip unicode reference = []
  · have empty : strip unicode [] = [] := rfl
    rw [lastConclusionSegment, line]
    simp [nothing, empty]
  · have terminated : search unicode.isWord (row [one endsSentence, spaces unicode, finish])
        (strip unicode reference) = none := by
      rw [search, finditer_none, List.head?_nil]
      intro front rest parts
      refine Option.eq_none_iff_forall_ne_some.mpr fun found here => ?_
      obtain ⟨first, inOne, next, inNext, -⟩ := mem_seq.mp (matchAt_mem here).1
      obtain ⟨blank, inBlank, final, inFinal, -⟩ := mem_seq.mp inNext
      cases rest with
      | nil => cases inOne
      | cons char rest =>
        rw [finds] at inOne
        split at inOne
        next mark =>
          rw [List.mem_singleton.mp inOne] at inBlank
          obtain ⟨head, visible, space⟩ := strip_unpunctuated bare parts.symm mark
          obtain ⟨spaces, left, split, all, -, rfl⟩ := mem_run.mp inBlank
          have ended : left = [] ∨ left = ['\n'] := (mem_finish.mp inFinal).1
          have spaced : unicode.isSpace head = true := by
            have split : rest = spaces ++ left := split
            rw [split] at visible
            cases spaces with
            | cons other spaces =>
              rw [← Option.some.inj visible]
              exact all other List.mem_cons_self
            | nil =>
              rcases ended with rfl | rfl
              · cases visible
              · rw [← Option.some.inj visible, unicode.asciiSpace '\n' (by decide)]
                decide
          rw [space] at spaced
          cases spaced
        next => cases inOne
    have sentences : splitAtMatches unicode
        (row [behind (fun last => last.any endsSentence), run unicode.isSpace 1])
        (strip unicode reference) = [strip unicode reference] := by
      rw [splitAtMatches, pieces_none, List.splitOnP_eq_singleton]
      · simp only [List.map_cons, List.map_nil, List.filterMap_map]
        exact congrArg (fun text => [text]) (List.filterMap_some (l := strip unicode reference))
      · intro piece member
        obtain ⟨char, -, rfl⟩ := List.mem_map.mp member
        rfl
      · intro front rest parts
        refine Option.eq_none_iff_forall_ne_some.mpr fun found here => ?_
        obtain ⟨first, inBehind, next, inRun, -⟩ := mem_seq.mp (matchAt_mem here).1
        rw [finds] at inBehind
        split at inBehind
        next marked =>
          rw [List.mem_singleton.mp inBehind] at inRun
          obtain ⟨blank, left, split, all, long, -⟩ := mem_run.mp inRun
          cases blank with
          | nil => exact absurd long (by decide)
          | cons space blank =>
            rcases List.eq_nil_or_concat front with rfl | ⟨others, char, rfl⟩
            · cases marked
            · rw [List.concat_eq_append] at marked parts
              rw [lastOf_append] at marked
              rw [List.append_assoc] at parts
              obtain ⟨head, visible, other⟩ := strip_unpunctuated bare parts.symm marked
              have split : rest = space :: (blank ++ left) := split
              rw [split] at visible
              rw [← Option.some.inj visible, all space List.mem_cons_self] at other
              cases other
        next => cases inBehind
    rw [lastConclusionSegment, line]
    simp [strip_stripped stripped, nothing, terminated, sentences]

theorem conclusionSurface_bare (bare : BareReference unicode reference) :
    conclusionSurface unicode (strip unicode reference) = none := by
  have equalities : finditer unicode.isWord (equality unicode) (strip unicode reference) = [] := by
    refine finditer_none fun front rest parts =>
      @matchAt_contains _ _ _ _ (· = '=') ?_ fun char member => ?_
    · exact .inr (.inl (.inl fun char same => beq_iff_eq.mp same))
    · rintro rfl
      exact bare.noEquality (mem_strip (parts ▸ List.mem_append_right _ member))
  have copulas : finditer unicode.isWord (copula unicode) (strip unicode reference) = [] :=
    finditer_none fun front rest parts => (matchAt_announcing (strip_wordless bare front rest parts)).2
  rw [conclusionSurface, lastSurface, lastSurface, equalities, copulas]
  rfl

/-- From a bare reference is extracted what the presentation leaves, if it is an answer as a whole. -/
theorem extractMathAnswer_bare (bare : BareReference unicode reference) :
    extractMathAnswer unicode reference =
      let trimmed := trimMathTail unicode (strip unicode reference)
      if candidateSurface unicode trimmed = some trimmed then some trimmed else none := by
  have boxes : finditer unicode.isWord (seq (lit boxed) (spaces unicode)) reference = [] :=
    finditer_none fun front rest parts => matchAt_boxed fun announced =>
      bare.unboxed (announced.isInfix.trans (parts ▸ (List.suffix_append front rest).isInfix))
  have announced : finditer unicode.isWord (explicit unicode) reference = [] :=
    finditer_none fun front rest parts =>
      (matchAt_announcing (search_none bare.wordless front rest parts)).1
  rw [extractMathAnswer, boxes, announced, lastConclusionSegment_bare bare]
  simp only [List.reverse_nil, List.findSome?_nil, conclusionSurface_bare bare, mathSurfaceFromTail]
  cases surface : candidateSurface unicode (trimMathTail unicode (strip unicode reference)) with
  | none => simp
  | some bare =>
    by_cases whole : trimMathTail unicode (strip unicode reference) = bare
    · simp [whole]
    · have other : bare ≠ trimMathTail unicode (strip unicode reference) := fun same => whole same.symm
      simp [whole, other]

end references

end SpecBlock.Scoring
