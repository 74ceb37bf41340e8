import Mathlib
import SpecBlock.Scoring.MathExtraction

/-!
# What trimming takes off a reference

An answer as a whole is a group in parentheses, a number or fraction, or a name. Trimming takes an
introducing word or colon off the front, one mark off the end, and one opening wrapper; it is said here
exactly what is left.
-/

namespace SpecBlock.Scoring

open Regex

variable {unicode : Unicode}

section answers

/-- A pattern, matched at the beginning, takes the whole text. -/
def TakenWhole (unicode : Unicode) (pattern : Regex) (text : List Char) : Prop :=
  ∃ found, matchAt unicode.isWord pattern none text = some found ∧ found.rest = []

/-- An answer as a whole: a group in balanced parentheses, a fraction or number, or a name. -/
def IsAnswer (unicode : Unicode) (text : List Char) : Prop :=
  extractBalancedParentheses text = some text ∨ TakenWhole unicode (numericPattern unicode) text ∨
    TakenWhole unicode nameWord text

/-- Characters a numeric surface can begin with. -/
def OpensNumber (unicode : Unicode) (char : Char) : Prop :=
  char = '+' ∨ char = '-' ∨ char = '\\' ∨ unicode.isDecimal char = true

/-- Characters a numeric surface can end with. -/
def ClosesNumber (unicode : Unicode) (char : Char) : Prop :=
  char = '}' ∨ char = '°' ∨ char.isAlphanum = true ∨ unicode.isDecimal char = true

/-- A numeric surface begins with a sign, a digit or a command. -/
theorem numericPattern_begins : (numericPattern unicode).Begins (OpensNumber unicode) := by
  refine ⟨rfl, ?_⟩
  simp [numericPattern, any, latexFraction, number, row, sign, opt, lit, digits, MayBegin, Filled,
    OpensNumber]
  exact fun char decimal => .inr (.inr (.inr decimal))

/-- A numeric surface ends with a digit, a letter, a degree sign or a brace. -/
theorem numericPattern_ends : (numericPattern unicode).Ends (ClosesNumber unicode) := by
  refine ⟨rfl, ?_⟩
  simp [numericPattern, any, latexFraction, number, radical, degree, radicand, row, sign, opt, lit, digits,
    spaces, MayEnd, Filled, ClosesNumber]
  exact ⟨fun char alphanum => .inr (.inr (.inl alphanum)), fun char decimal => .inr (.inr (.inr decimal))⟩

theorem numericPattern_contains :
    (numericPattern unicode).Contains (fun char => char = '\\' ∨ unicode.isDecimal char = true) := by
  simp [numericPattern, any, latexFraction, number, row, sign, opt, lit, digits, Contains]
  exact .inl fun char decimal => .inr decimal

theorem decimal_apart {char mark : Char} (decimal : unicode.isDecimal char = true)
    (ascii : mark.toNat < 128) (other : mark.isDigit = false) : char ≠ mark := by
  rintro rfl
  rw [unicode.asciiDecimal char ascii, other] at decimal
  cases decimal

theorem upToClosing_last {opening closing : Char} {depth : Nat} {text taken : List Char}
    (here : upToClosing opening closing depth text = some taken) : taken.getLast? = some closing := by
  induction text generalizing depth taken with
  | nil => cases here
  | cons char text ih =>
    rw [upToClosing] at here
    have longer {inner : Nat} (rest : (upToClosing opening closing inner text).map (char :: ·) = some taken) :
        taken.getLast? = some closing := by
      obtain ⟨others, there, rfl⟩ := Option.map_eq_some_iff.mp rest
      rw [List.getLast?_cons, ih there]
      rfl
    split at here
    · exact longer here
    · split at here
      next same =>
        split at here
        · rw [← Option.some.inj here, same]
          rfl
        · exact longer here
      · exact longer here

/-- A group begins with its opening parenthesis and ends with its closing one. -/
theorem group_ends {text taken : List Char} (here : extractBalancedParentheses text = some taken) :
    text.head? = some '(' ∧ taken.getLast? = some ')' := by
  rw [extractBalancedParentheses] at here
  split at here
  next opening => exact ⟨opening, upToClosing_last here⟩
  next => cases here

/-- A text that a pattern takes as a whole is what the pattern found. -/
theorem TakenWhole.mem {pattern : Regex} {text : List Char} (taken : TakenWhole unicode pattern text) :
    ∃ found ∈ finds unicode.isWord pattern none text, found.text = text := by
  obtain ⟨found, here, whole⟩ := taken
  refine ⟨found, (matchAt_mem here).1, ?_⟩
  have parts := matchAt_text here
  rwa [whole, List.append_nil] at parts

/-- A name is of letters, apostrophes and hyphens. -/
def NameChar (char : Char) : Prop := char.isAlpha = true ∨ char = '\'' ∨ char = '-'

theorem nameWord_within : nameWord.Within NameChar := by
  simp only [nameWord, row, Within, NameChar]
  refine ⟨⟨fun char upper => .inl ?_, fun char named => ?_⟩, trivial⟩
  · rw [Char.isAlpha, upper]
    rfl
  · simpa [or_assoc] using named

theorem nameWord_group {text : List Char} {found : Found}
    (member : found ∈ finds unicode.isWord nameWord none text) : found.group 1 = found.text := by
  obtain ⟨front, inGroup, next, closing, rfl⟩ := mem_seq.mp member
  obtain ⟨inner, -, rfl⟩ := List.mem_map.mp inGroup
  obtain ⟨-, rfl⟩ := mem_boundary.mp closing
  exact (List.append_nil _).symm

theorem number_ends {text : List Char} (number : TakenWhole unicode (numericPattern unicode) text) :
    (∃ char, text.head? = some char ∧ OpensNumber unicode char) ∧
      ∃ char, text.getLast? = some char ∧ ClosesNumber unicode char := by
  obtain ⟨found, member, same⟩ := number.mem
  rw [← same]
  exact ⟨finds_begins numericPattern_begins member, finds_ends numericPattern_ends member⟩

/-- A name is of its characters, begins with a capital letter and ends with a letter. -/
theorem name_spec {text : List Char} (name : TakenWhole unicode nameWord text) :
    (∀ char ∈ text, NameChar char) ∧ (∃ char, text.head? = some char ∧ char.isUpper = true) ∧
      ∃ char, text.getLast? = some char ∧ char.isAlpha = true := by
  obtain ⟨found, here, whole⟩ := name
  have parts := matchAt_text here
  rw [whole, List.append_nil] at parts
  obtain ⟨member, filled⟩ := matchAt_mem here
  have named := finds_within nameWord_within member
  refine ⟨parts ▸ named, ?_, ?_⟩
  · rw [← parts]
    refine finds_begins ⟨rfl, ?_⟩ member
    simp [nameWord, row, MayBegin, Filled]
  · obtain ⟨front, -, next, closing, same⟩ := mem_seq.mp member
    obtain ⟨differs, rfl⟩ := mem_boundary.mp closing
    rw [same] at whole
    have whole : front.rest = [] := whole
    have last : found.text = front.text := by rw [same, List.append_nil]
    rw [whole, ← last, lastOf_getLast filled] at differs
    cases final : found.text.getLast? with
    | none => exact absurd (List.getLast?_eq_none_iff.mp final) filled
    | some char =>
      rw [parts] at final
      refine ⟨char, final, ?_⟩
      rw [parts, final] at differs
      rcases named char (parts ▸ List.mem_of_getLast? final) with alpha | rfl | rfl
      · exact alpha
      all_goals
        rw [Option.any_some, unicode.asciiWord _ (by decide)] at differs
        exact absurd rfl differs

theorem IsAnswer.filled {text : List Char} (answer : IsAnswer unicode text) : text ≠ [] := by
  rcases answer with group | number | name
  · rintro rfl
    cases group
  · obtain ⟨⟨char, head, -⟩, -⟩ := number_ends number
    exact List.ne_nil_of_mem (List.mem_of_mem_head? head)
  · obtain ⟨-, ⟨char, head, -⟩, -⟩ := name_spec name
    exact List.ne_nil_of_mem (List.mem_of_mem_head? head)

theorem alpha_not_decimal {char : Char} (alpha : char.isAlpha = true) :
    unicode.isDecimal char = false := by
  have code := isAlpha_code alpha
  rw [unicode.asciiDecimal char (by omega), Char.isDigit]
  have digits : '0'.val.toNat = 48 ∧ '9'.val.toNat = 57 := ⟨rfl, rfl⟩
  have same : char.toNat = char.val.toNat := rfl
  simp only [Bool.and_eq_false_iff, decide_eq_false_iff_not, ge_iff_le, UInt32.le_iff_toNat_le]
  omega

theorem name_not_numeric {char : Char} (named : NameChar char) :
    ¬ (char = '\\' ∨ unicode.isDecimal char = true) := by
  rintro (rfl | decimal)
  · rcases named with alpha | same | same
    · exact absurd alpha (by decide)
    · cases same
    · cases same
  · rcases named with alpha | rfl | rfl
    · rw [alpha_not_decimal alpha] at decimal
      cases decimal
    · exact decimal_apart decimal (by decide) (by decide) rfl
    · exact decimal_apart decimal (by decide) (by decide) rfl

/-- The surface of a candidate is the candidate if it is an answer as a whole. -/
theorem candidateSurface_whole {text : List Char} (stripped : Stripped unicode text) :
    candidateSurface unicode text = some text ↔ IsAnswer unicode text := by
  constructor
  · intro surface
    rw [candidateSurface] at surface
    split at surface
    next => cases surface
    next filled =>
      split at surface
      next parenthesized group =>
        obtain rfl := Option.some.inj surface
        exact .inl group
      next =>
        split at surface
        next fraction here =>
          have same := Option.some.inj surface
          have parts := matchAt_text here
          rw [same, List.append_right_eq_self] at parts
          exact .inr (.inl ⟨fraction, matchAt_alt here, parts⟩)
        next =>
          split at surface
          next numeric found =>
            obtain rfl := Option.some.inj surface
            obtain ⟨last, final, same⟩ := Option.map_eq_some_iff.mp found
            refine .inr (.inl ⟨last, finditer_whole (List.mem_of_getLast? final) ?_⟩)
            obtain ⟨front, back, -, -, whole, -⟩ := strip_spec unicode last.text
            have lengths := congrArg List.length whole
            rw [same, List.length_append, List.length_append] at lengths
            omega
          next =>
            obtain ⟨found, here, same⟩ := Option.map_eq_some_iff.mp surface
            have parts := matchAt_text here
            rw [← nameWord_group (matchAt_mem here).1, same, List.append_right_eq_self] at parts
            exact .inr (.inr ⟨found, here, parts⟩)
  · intro answer
    rw [candidateSurface, if_neg answer.filled]
    rcases answer with group | number | name
    · rw [group]
    · obtain ⟨char, head, opens⟩ := (number_ends number).1
      obtain ⟨found, here, whole⟩ := number
      have noGroup : extractBalancedParentheses text = none := by
        rw [extractBalancedParentheses, head, if_neg]
        rintro same
        obtain rfl := Option.some.inj same
        rcases opens with same | same | same | decimal
        · cases same
        · cases same
        · cases same
        · exact decimal_apart decimal (by decide) (by decide) rfl
      have taken := matchAt_text here
      rw [whole, List.append_nil] at taken
      rw [noGroup]
      cases fraction : matchAt unicode.isWord latexFraction none text with
      | some other =>
        obtain rfl : other = found := Option.some.inj ((matchAt_alt fraction).symm.trans here)
        exact congrArg some taken
      | none =>
        have numeric : numericSurface unicode text = some text := by
          rw [numericSurface, finditer_match here whole]
          exact congrArg some ((congrArg (strip unicode) taken).trans (strip_stripped stripped))
        simp only [numeric]
    · obtain ⟨named, ⟨char, head, upper⟩, -⟩ := name_spec name
      obtain ⟨found, here, whole⟩ := name
      have taken := matchAt_text here
      rw [whole, List.append_nil] at taken
      have noGroup : extractBalancedParentheses text = none := by
        rw [extractBalancedParentheses, head, if_neg]
        rintro same
        obtain rfl := Option.some.inj same
        cases upper
      have noFraction : matchAt unicode.isWord latexFraction none text = none := by
        refine @matchAt_contains _ _ _ _ (· = '\\') ?_ fun other member same =>
          @name_not_numeric unicode _ (named other member) (.inl same)
        simp [latexFraction, row, lit, Contains]
      have noNumber : numericSurface unicode text = none := by
        rw [numericSurface, finditer_none]
        · rfl
        · intro front rest parts
          exact matchAt_contains numericPattern_contains fun other member =>
            name_not_numeric (named other (parts ▸ List.mem_append_right _ member))
      have group := nameWord_group (matchAt_mem here).1
      simp only [noGroup, noFraction, noNumber, here, Option.map_some, group, taken]

end answers

section trimming

/-- What `_trim_math_tail` takes off the end: a dollar, a closing wrapper, a bracket or a mark. -/
def EndMark (text : List Char) : Prop :=
  text = ['$'] ∨ text = ['\\', ')'] ∨ text = [']'] ∨
    ∃ char, text = [char] ∧ ['.', '?', '!', ';', ':'].contains char = true

/-- What `_trim_math_tail` takes off the front in the end. -/
def OpeningWrapper (text : List Char) : Prop := text = ['$'] ∨ text = ['\\', '(']

variable {text : List Char}

/-- Nothing is taken off the front of a text that begins with no introducing word. -/
theorem sub_introduction_miss (unintroduced : finds unicode.isWord introductionWord none text = []) :
    sub unicode.isWord (introduction unicode) (fun _ => []) none text = text := by
  refine sub_start_miss rfl (Option.eq_none_iff_forall_ne_some.mpr fun found here => ?_)
  obtain ⟨first, opening, next, inNext, -⟩ := mem_seq.mp (matchAt_mem here).1
  obtain ⟨-, rfl⟩ := mem_start.mp opening
  obtain ⟨introduced, inWord, -⟩ := mem_seq.mp inNext
  exact List.not_mem_nil (unintroduced ▸ inWord)

/-- Off the front is taken an introducing word with the spaces behind it, or nothing. -/
theorem sub_introduction (text : List Char) :
    (finds unicode.isWord introductionWord none text = [] ∧
      sub unicode.isWord (introduction unicode) (fun _ => []) none text = text) ∨
    ∃ found ∈ finds unicode.isWord introductionWord none text, ∃ blank, Blank unicode blank ∧
      text = found.text ++ blank ++ sub unicode.isWord (introduction unicode) (fun _ => []) none text := by
  cases here : matchAt unicode.isWord (introduction unicode) none text with
  | none =>
    refine .inl ⟨List.eq_nil_iff_forall_not_mem.mpr fun found member => ?_, sub_start_miss rfl here⟩
    refine List.not_mem_nil (finds_of_matchAt_none rfl here ▸ mem_seq.mpr
      ⟨_, mem_start.mpr ⟨rfl, rfl⟩, _, mem_seq.mpr ⟨found, member, _,
        mem_run.mpr ⟨[], _, rfl, nofun, Nat.le_refl _, rfl⟩, rfl⟩, rfl⟩)
  | some found =>
    obtain ⟨first, opening, next, inNext, same⟩ := mem_seq.mp (matchAt_mem here).1
    obtain ⟨-, rfl⟩ := mem_start.mp opening
    obtain ⟨introduced, inWord, final, inSpaces, rfl⟩ := mem_seq.mp inNext
    obtain ⟨blank, rest, parts, all, -, rfl⟩ := mem_run.mp inSpaces
    refine .inr ⟨introduced, inWord, blank, all, ?_⟩
    rw [sub_start_hit rfl here, same, List.append_assoc]
    exact (finds_text inWord).symm.trans (congrArg (introduced.text ++ ·) parts)

/-- Off the front of a text is taken an opening wrapper, or nothing. -/
theorem sub_wrapper (text : List Char) :
    ((∀ opening, OpeningWrapper opening → ¬ opening <+: text) ∧
      sub unicode.isWord wrapper (fun _ => []) none text = text) ∨
    ∃ opening, OpeningWrapper opening ∧
      text = opening ++ sub unicode.isWord wrapper (fun _ => []) none text := by
  cases here : matchAt unicode.isWord wrapper none text with
  | none =>
    refine .inl ⟨?_, sub_start_miss rfl here⟩
    have nothing := finds_of_matchAt_none rfl here
    rintro _ (rfl | rfl) ⟨rest, rfl⟩
    · have first := (List.append_eq_nil_iff.mp nothing).1
      exact List.not_mem_nil (first ▸ mem_seq.mpr
        ⟨_, mem_start.mpr ⟨rfl, rfl⟩, _, mem_lit.mpr ⟨rest, rfl, rfl⟩, rfl⟩)
    · have second := (List.append_eq_nil_iff.mp nothing).2
      exact List.not_mem_nil (second ▸ mem_seq.mpr
        ⟨_, mem_start.mpr ⟨rfl, rfl⟩, _, mem_lit.mpr ⟨rest, rfl, rfl⟩, rfl⟩)
  | some found =>
    rw [sub_start_hit rfl here, List.nil_append]
    have parts := matchAt_text here
    rcases List.mem_append.mp (matchAt_mem here).1 with member | member
    all_goals
      obtain ⟨first, opening, next, inLit, rfl⟩ := mem_seq.mp member
      obtain ⟨-, rfl⟩ := mem_start.mp opening
      obtain ⟨rest, -, rfl⟩ := mem_lit.mp inLit
    · exact .inr ⟨_, .inl rfl, parts.symm⟩
    · exact .inr ⟨_, .inr rfl, parts.symm⟩

theorem EndMark.filled (mark : EndMark text) : text ≠ [] := by
  rcases mark with rfl | rfl | rfl | ⟨char, rfl, -⟩ <;> exact List.cons_ne_nil _ _

theorem endMark_append {first second : List Char} (filled : first ≠ []) (mark : EndMark second) :
    ¬ EndMark (first ++ second) := by
  have long := List.length_pos_of_ne_nil filled
  have long' := List.length_pos_of_ne_nil mark.filled
  have single (char : Char) : first ++ second ≠ [char] := by
    intro whole
    have lengths := congrArg List.length whole
    rw [List.length_append, List.length_singleton] at lengths
    omega
  rintro (whole | whole | whole | ⟨char, whole, -⟩)
  · exact single '$' whole
  · cases first with
    | nil => exact filled rfl
    | cons char others =>
      have rest : others ++ second = [')'] := List.tail_eq_of_cons_eq whole
      have lengths := congrArg List.length rest
      rw [List.length_append, List.length_singleton] at lengths
      obtain rfl : others = [] := List.length_eq_zero_iff.mp (by omega)
      obtain rfl : second = [')'] := rest
      rcases mark with other | other | other | ⟨char, other, dot⟩
      · cases other
      · cases other
      · cases other
      · obtain rfl := List.head_eq_of_cons_eq other
        exact absurd dot (by decide)
  · exact single ']' whole
  · exact single char whole

theorem endMarks_spec {last : Option Char} {found : Found}
    (member : found ∈ finds unicode.isWord endMarks last text) : EndMark found.text := by
  obtain ⟨pattern, inPatterns, inPattern⟩ := mem_any.mp member
  simp only [List.mem_cons, List.not_mem_nil, or_false] at inPatterns
  rcases inPatterns with rfl | rfl | rfl | rfl
  · obtain ⟨rest, -, rfl⟩ := mem_lit.mp inPattern
    exact .inl rfl
  · obtain ⟨rest, -, rfl⟩ := mem_lit.mp inPattern
    exact .inr (.inl rfl)
  · obtain ⟨rest, -, rfl⟩ := mem_lit.mp inPattern
    exact .inr (.inr (.inl rfl))
  · cases text with
    | nil => cases inPattern
    | cons char text =>
      rw [finds] at inPattern
      split at inPattern
      next dot =>
        rw [List.mem_singleton.mp inPattern]
        exact .inr (.inr (.inr ⟨char, rfl, dot⟩))
      next => cases inPattern

theorem mem_endMarks (mark : EndMark text) (last : Option Char) :
    ⟨text, [], []⟩ ∈ finds unicode.isWord endMarks last text := by
  refine mem_any.mpr ?_
  rcases mark with rfl | rfl | rfl | ⟨char, rfl, dot⟩
  · exact ⟨_, .head _, mem_lit.mpr ⟨[], rfl, rfl⟩⟩
  · exact ⟨_, .tail _ (.head _), mem_lit.mpr ⟨[], rfl, rfl⟩⟩
  · exact ⟨_, .tail _ (.tail _ (.head _)), mem_lit.mpr ⟨[], rfl, rfl⟩⟩
  · refine ⟨_, .tail _ (.tail _ (.tail _ (.head _))), ?_⟩
    rw [finds, if_pos dot]
    exact .head _

/-- A match at the end of a text that has no spaces there is one of the marks. -/
theorem matchAt_ending {last : Option Char} {found : Found} (oneLine : '\n' ∉ text)
    (visible : ∀ char, text.getLast? = some char → unicode.isSpace char = false)
    (here : matchAt unicode.isWord (ending unicode) last text = some found) :
    EndMark text ∧ found.rest = [] := by
  obtain ⟨mark, inMarks, next, inNext, rfl⟩ := mem_seq.mp (matchAt_mem here).1
  obtain ⟨blank, inSpaces, final, inFinish, rfl⟩ := mem_seq.mp inNext
  have marked := endMarks_spec inMarks
  have parts := (finds_text inMarks).symm
  obtain ⟨spaces, left, split, all, -, rfl⟩ := mem_run.mp inSpaces
  obtain ⟨ended, rfl⟩ := mem_finish.mp inFinish
  have ended : left = [] ∨ left = ['\n'] := ended
  have split : mark.rest = spaces ++ left := split
  rcases ended with rfl | rfl
  · rw [List.append_nil] at split
    rcases List.eq_nil_or_concat spaces with rfl | ⟨others, space, rfl⟩
    · rw [split, List.append_nil] at parts
      exact ⟨parts ▸ marked, rfl⟩
    · rw [parts, split, List.concat_eq_append, ← List.append_assoc, List.getLast?_concat] at visible
      have spaced := all space (by simp)
      rw [visible space rfl] at spaced
      cases spaced
  · refine absurd ?_ oneLine
    rw [parts, split]
    simp

theorem endMark_match (mark : EndMark text) (last : Option Char) :
    ∃ found, matchAt unicode.isWord (ending unicode) last text = some found :=
  matchAt_isSome rfl (mem_seq.mpr ⟨⟨text, [], []⟩, mem_endMarks mark last, _, mem_seq.mpr ⟨_, mem_run.mpr ⟨[], [], rfl, nofun, Nat.le_refl _, rfl⟩, _,
      mem_finish.mpr ⟨.inl rfl, rfl⟩, rfl⟩, rfl⟩)

/-- Off the end of a text that has no spaces there is taken a mark. -/
theorem sub_ending_hit {front mark : List Char} (oneLine : '\n' ∉ front ++ mark)
    (visible : ∀ char, (front ++ mark).getLast? = some char → unicode.isSpace char = false)
    (marked : EndMark mark) :
    sub unicode.isWord (ending unicode) (fun _ => []) none (front ++ mark) = front := by
  obtain ⟨found, here⟩ := @endMark_match unicode mark marked (lastOf none front)
  have last (second : List Char) : (second ++ mark).getLast? = mark.getLast? := by
    rw [List.getLast?_append, List.getLast?_eq_some_getLast marked.filled, Option.some_or]
  have whole : found.rest = [] := by
    refine (matchAt_ending (fun member => oneLine (List.mem_append_right _ member)) ?_ here).2
    rw [← last front]
    exact visible
  rw [sub_end _ here whole, List.append_nil]
  intro first second parts filled
  refine Option.eq_none_iff_forall_ne_some.mpr fun other there => ?_
  refine endMark_append filled marked (matchAt_ending ?_ ?_ there).1
  · intro member
    refine oneLine ?_
    rw [← parts, List.append_assoc]
    exact List.mem_append_right _ member
  · rw [last second, ← last front]
    exact visible

/-- Nothing is taken off the end of a text without a mark there. -/
theorem sub_ending_miss (oneLine : '\n' ∉ text)
    (visible : ∀ char, text.getLast? = some char → unicode.isSpace char = false)
    (unmarked : ∀ mark, EndMark mark → ¬ mark <:+ text) :
    sub unicode.isWord (ending unicode) (fun _ => []) none text = text := by
  refine sub_nowhere fun front rest parts => Option.eq_none_iff_forall_ne_some.mpr fun found here => ?_
  refine unmarked rest (matchAt_ending ?_ ?_ here).1 ⟨front, parts⟩
  · exact fun member => oneLine (parts ▸ List.mem_append_right _ member)
  · intro char final
    refine visible char ?_
    rw [← parts, List.getLast?_append, final, Option.some_or]

theorem Blank.append {first second : List Char} (blank : Blank unicode first)
    (blank' : Blank unicode second) : Blank unicode (first ++ second) :=
  List.forall_mem_append.mpr ⟨blank, blank'⟩

theorem Stripped.no_lead {front back : List Char} (stripped : Stripped unicode (front ++ back))
    (blank : Blank unicode front) : front = [] := by
  cases front with
  | nil => rfl
  | cons char front =>
    have spaced := blank char List.mem_cons_self
    rw [stripped.head char rfl] at spaced
    cases spaced

theorem Stripped.no_tail {front back : List Char} (stripped : Stripped unicode (front ++ back))
    (blank : Blank unicode back) : back = [] := by
  rcases List.eq_nil_or_concat back with rfl | ⟨others, char, rfl⟩
  · rfl
  · rw [List.concat_eq_append] at blank
    have spaced := blank char (List.mem_append_right _ (.head _))
    rw [stripped.last char (by rw [List.concat_eq_append, ← List.append_assoc, List.getLast?_concat])]
      at spaced
    cases spaced

/-- What trimming takes off a stripped text. -/
structure Trimmed (unicode : Unicode) (text word lead opening gap gap' mark : List Char) : Prop where
  parts : text = word ++ lead ++ opening ++ gap ++ trimMathTail unicode text ++ gap' ++ mark
  lead : Blank unicode lead
  gap : Blank unicode gap
  gap' : Blank unicode gap'
  word : (word = [] ∧ finds unicode.isWord introductionWord none text = []) ∨
    ∃ found ∈ finds unicode.isWord introductionWord none text, found.text = word
  opening : opening = [] ∨ OpeningWrapper opening
  mark : EndMark mark ∨ mark = [] ∧ ∀ final, EndMark final → ¬ final <:+ trimMathTail unicode text

/-- Trimming takes off an introducing word, an opening wrapper and an end mark, with the spaces between. -/
theorem trimMathTail_spec (stripped : Stripped unicode text) (oneLine : '\n' ∉ text) :
    Stripped unicode (trimMathTail unicode text) ∧ ∃ word lead opening gap gap' mark,
      Trimmed unicode text word lead opening gap gap' mark := by
  obtain ⟨word, lead, blank, wordSpec, parts⟩ : ∃ word lead, Blank unicode lead ∧
      ((word = [] ∧ finds unicode.isWord introductionWord none text = []) ∨
        ∃ found ∈ finds unicode.isWord introductionWord none text, found.text = word) ∧
      text = word ++ lead ++ sub unicode.isWord (introduction unicode) (fun _ => []) none text := by
    rcases @sub_introduction unicode text with ⟨nothing, same⟩ | ⟨found, member, lead, blank, parts⟩
    · exact ⟨[], [], nofun, .inl ⟨rfl, nothing⟩, same.symm⟩
    · exact ⟨found.text, lead, blank, .inr ⟨found, member, rfl⟩, parts⟩
  generalize introduced : sub unicode.isWord (introduction unicode) (fun _ => []) none text = rest at parts
  have oneLine' : '\n' ∉ rest := fun member => oneLine (parts ▸ List.mem_append_right _ member)
  have visible : ∀ char, rest.getLast? = some char → unicode.isSpace char = false := by
    intro char final
    refine stripped.last char ?_
    rw [parts, List.getLast?_append, final, Option.some_or]
  obtain ⟨front, mark, marked, whole, ended⟩ : ∃ front mark,
      (EndMark mark ∨ mark = [] ∧ ∀ final, EndMark final → ¬ final <:+ rest) ∧ rest = front ++ mark ∧
        sub unicode.isWord (ending unicode) (fun _ => []) none rest = front := by
    by_cases marked : ∃ front mark, EndMark mark ∧ rest = front ++ mark
    · obtain ⟨front, mark, marked, rfl⟩ := marked
      exact ⟨front, mark, .inl marked, rfl, sub_ending_hit oneLine' visible marked⟩
    · have unmarked : ∀ mark, EndMark mark → ¬ mark <:+ rest := fun mark isMark ⟨front, whole⟩ =>
        marked ⟨front, mark, isMark, whole.symm⟩
      exact ⟨rest, [], .inr ⟨rfl, unmarked⟩, (List.append_nil _).symm,
        sub_ending_miss oneLine' visible unmarked⟩
  obtain ⟨before, after, blankBefore, blankAfter, inner, -⟩ := strip_spec unicode front
  obtain ⟨opening, opened, unwrapped⟩ : ∃ opening, (opening = [] ∨ OpeningWrapper opening) ∧
      strip unicode front = opening ++ sub unicode.isWord wrapper (fun _ => []) none (strip unicode front) := by
    rcases @sub_wrapper unicode (strip unicode front) with ⟨-, same⟩ | ⟨opening, isOpening, parts⟩
    · exact ⟨[], .inl rfl, same.symm⟩
    · exact ⟨opening, .inr isOpening, parts⟩
  have trimmed : trimMathTail unicode text =
      strip unicode (sub unicode.isWord wrapper (fun _ => []) none (strip unicode front)) := by
    rw [trimMathTail, strip_stripped stripped, introduced, ended]
  obtain ⟨gap, gap', blankGap, blankGap', core, strippedCore⟩ :=
    strip_spec unicode (sub unicode.isWord wrapper (fun _ => []) none (strip unicode front))
  rw [← trimmed] at core strippedCore
  have all : text = word ++ (lead ++ before) ++ opening ++ gap ++ trimMathTail unicode text ++
      (gap' ++ after) ++ mark := by
    conv_lhs => rw [parts, whole, inner, unwrapped, core]
    simp only [List.append_assoc]
  refine ⟨strippedCore, word, lead ++ before, opening, gap, gap' ++ after, mark, all,
    blank.append blankBefore, blankGap, blankGap'.append blankAfter, wordSpec, opened, ?_⟩
  rcases marked with isMark | ⟨rfl, unmarked⟩
  · exact .inl isMark
  · refine .inr ⟨rfl, fun final isMark suffix => unmarked final isMark ?_⟩
    rw [List.append_nil] at all
    have noGap : gap' ++ after = [] := by
      rw [all] at stripped
      exact stripped.no_tail (blankGap'.append blankAfter)
    obtain ⟨rfl, rfl⟩ := List.append_eq_nil_iff.mp noGap
    rw [whole, inner, unwrapped, core]
    simp only [List.append_nil]
    exact suffix.trans ((List.suffix_append _ _).trans
      ((List.suffix_append _ _).trans (List.suffix_append _ _)))

/-- The presentation around an answer: a dollar in front, behind or on both sides, or a pair of inline
parentheses, with spaces inside; or nothing. -/
def Wrapping (unicode : Unicode) (front back : List Char) : Prop :=
  (front = [] ∨ ∃ gap, Blank unicode gap ∧ front = '$' :: gap) ∧
      (back = [] ∨ ∃ gap, Blank unicode gap ∧ back = gap ++ ['$']) ∨
    ∃ gap gap', Blank unicode gap ∧ Blank unicode gap' ∧ front = ['\\', '('] ++ gap ∧
      back = gap' ++ ['\\', ')']

/-- A text that is an answer as a whole, up to its presentation. Without presentation in front the answer
does not begin with what introduces one, and without presentation behind it does not end in a closing
wrapper. -/
structure WholeAnswer (unicode : Unicode) (text front core back : List Char) : Prop where
  parts : text = front ++ core ++ back
  wrapping : Wrapping unicode front back
  answer : IsAnswer unicode core
  unintroduced : front = [] → finds unicode.isWord introductionWord none core = []
  unmarked : back = [] → ¬ ['\\', ')'] <:+ core

theorem visible_ascii (char : Char) (ascii : char.toNat < 128)
    (other : [9, 10, 11, 12, 13, 28, 29, 30, 31, 32].contains char.toNat = false) :
    unicode.isSpace char = false := (unicode.asciiSpace char ascii).trans other

theorem word_visible {char : Char} (word : unicode.isWord char = true) : unicode.isSpace char = false := by
  cases spaced : unicode.isSpace char with
  | false => rfl
  | true =>
    rw [(unicode.space char spaced).1] at word
    cases word

theorem IsAnswer.head {core : List Char} (answer : IsAnswer unicode core) :
    ∃ char, core.head? = some char ∧ (char = '(' ∨ OpensNumber unicode char ∨ char.isUpper = true) := by
  rcases answer with group | number | name
  · exact ⟨'(', (group_ends group).1, .inl rfl⟩
  · obtain ⟨char, head, opens⟩ := (number_ends number).1
    exact ⟨char, head, .inr (.inl opens)⟩
  · obtain ⟨-, ⟨char, head, upper⟩, -⟩ := name_spec name
    exact ⟨char, head, .inr (.inr upper)⟩

/-- The last character of an answer: a group ends in its parenthesis, any other answer does not. -/
theorem IsAnswer.last {core : List Char} (answer : IsAnswer unicode core) :
    (core.head? = some '(' ∧ core.getLast? = some ')') ∨
      ∃ char, core.getLast? = some char ∧ ClosesNumber unicode char := by
  rcases answer with group | number | name
  · exact .inl (group_ends group)
  · exact .inr (number_ends number).2
  · obtain ⟨-, -, char, last, alpha⟩ := name_spec name
    refine .inr ⟨char, last, .inr (.inr (.inl ?_))⟩
    rw [Char.isAlphanum, alpha]
    rfl

theorem isDigit_code {char : Char} (digit : char.isDigit = true) : 48 ≤ char.toNat ∧ char.toNat ≤ 57 := by
  simp only [Char.isDigit, Bool.and_eq_true, decide_eq_true_eq, ge_iff_le, UInt32.le_iff_toNat_le] at digit
  have codes : '0'.val.toNat = 48 ∧ '9'.val.toNat = 57 := ⟨rfl, rfl⟩
  have code : char.toNat = char.val.toNat := rfl
  omega

theorem alphanum_visible {char : Char} (alphanum : char.isAlphanum = true) :
    unicode.isSpace char = false := by
  refine word_visible ?_
  rw [Char.isAlphanum, Bool.or_eq_true] at alphanum
  rcases alphanum with alpha | digit
  · exact isAlpha_word alpha
  · have code := isDigit_code digit
    rw [unicode.asciiWord char (by omega), Char.isAlphanum, digit, Bool.or_true]
    rfl

theorem IsAnswer.stripped {core : List Char} (answer : IsAnswer unicode core) :
    Stripped unicode core := by
  constructor
  · intro char first
    obtain ⟨other, head, opens⟩ := answer.head
    obtain rfl := Option.some.inj (first.symm.trans head)
    rcases opens with rfl | (rfl | rfl | rfl | decimal) | upper
    · exact visible_ascii _ (by decide) (by decide)
    · exact visible_ascii _ (by decide) (by decide)
    · exact visible_ascii _ (by decide) (by decide)
    · exact visible_ascii _ (by decide) (by decide)
    · exact word_visible (unicode.decimal char decimal).1
    · exact word_visible (isAlpha_word (by rw [Char.isAlpha, upper]; rfl))
  · intro char final
    rcases answer.last with ⟨-, last⟩ | ⟨other, last, closes⟩
    · obtain rfl := Option.some.inj (final.symm.trans last)
      exact visible_ascii _ (by decide) (by decide)
    · obtain rfl := Option.some.inj (final.symm.trans last)
      rcases closes with rfl | rfl | alphanum | decimal
      · exact visible_ascii _ (by decide) (by decide)
      · exact (unicode.symbols '°' (by decide)).1
      · exact alphanum_visible alphanum
      · exact word_visible (unicode.decimal char decimal).1

theorem not_closes {mark : Char} (ascii : mark.toNat < 128) (brace : mark ≠ '}')
    (other : mark.isAlphanum = false) : ¬ ClosesNumber unicode mark := by
  rintro (same | rfl | alphanum | decimal)
  · exact brace same
  · exact absurd ascii (by decide)
  · rw [other] at alphanum
    cases alphanum
  · refine decimal_apart decimal ascii ?_ rfl
    rw [Char.isAlphanum, Bool.or_eq_false_iff] at other
    exact other.2

theorem IsAnswer.mark {core mark : List Char} (answer : IsAnswer unicode core) (marked : EndMark mark)
    (front : List Char) (suffix : mark <:+ front ++ core) : mark = ['\\', ')'] ∧ mark <:+ core := by
  have last : mark.getLast? = core.getLast? := by
    obtain ⟨before, whole⟩ := suffix
    have ends := congrArg List.getLast? whole
    rwa [List.getLast?_append, List.getLast?_append, List.getLast?_eq_some_getLast marked.filled,
      List.getLast?_eq_some_getLast answer.filled, Option.some_or, Option.some_or,
      ← List.getLast?_eq_some_getLast, ← List.getLast?_eq_some_getLast] at ends
  rcases answer.last with ⟨head, closing⟩ | ⟨char, closing, closes⟩
  · have long : 2 ≤ core.length := by
      obtain ⟨others, rfl⟩ := List.head?_eq_some_iff.mp head
      cases others with
      | nil => cases closing
      | cons char others =>
        rw [List.length_cons, List.length_cons]
        omega
    rw [closing] at last
    rcases marked with rfl | rfl | rfl | ⟨dot, rfl, dots⟩
    · cases last
    · exact ⟨rfl, List.suffix_of_suffix_length_le suffix (List.suffix_append front core) long⟩
    · cases last
    · obtain rfl : dot = ')' := Option.some.inj last
      exact absurd dots (by decide)
  · refine absurd closes ?_
    rw [closing] at last
    rcases marked with rfl | rfl | rfl | ⟨dot, rfl, dots⟩
    · obtain rfl : '$' = char := Option.some.inj last
      exact not_closes (by decide) (by decide) (by decide)
    · obtain rfl : ')' = char := Option.some.inj last
      exact not_closes (by decide) (by decide) (by decide)
    · obtain rfl : ']' = char := Option.some.inj last
      exact not_closes (by decide) (by decide) (by decide)
    · obtain rfl : dot = char := Option.some.inj last
      simp only [List.contains_eq_mem, List.mem_cons, List.not_mem_nil, or_false, decide_eq_true_eq]
        at dots
      rcases dots with rfl | rfl | rfl | rfl | rfl <;>
        exact not_closes (by decide) (by decide) (by decide)

/-- A number that begins with a command goes on with the name of a fraction. -/
theorem number_command {rest : List Char}
    (numeric : TakenWhole unicode (numericPattern unicode) ('\\' :: rest)) :
    ∃ char, rest.head? = some char ∧ (char = 'd' ∨ char = 'f') := by
  obtain ⟨found, member, same⟩ := numeric.mem
  rcases List.mem_append.mp member with fraction | plain
  · obtain ⟨signed, inSign, next, inNext, rfl⟩ := mem_seq.mp fraction
    obtain ⟨command, inCommand, name, inName, rfl⟩ := mem_seq.mp inNext
    obtain ⟨_, -, rfl⟩ := mem_lit.mp inCommand
    have begins : ∃ char, name.text.head? = some char ∧ (char = 'd' ∨ char = 'f') := by
      refine finds_begins ⟨rfl, ?_⟩ inName
      simp [row, opt, lit, MayBegin, Filled]
    obtain ⟨char, head, named⟩ := begins
    have unsigned : signed.text = [] := by
      cases taken : signed.text with
      | nil => rfl
      | cons first others =>
        have mayBegin : sign.MayBegin (fun char => char = '+' ∨ char = '-') := by
          simp [sign, opt, MayBegin]
        have plus := finds_mayBegin mayBegin inSign first (by rw [taken]; rfl)
        dsimp only at same
        rw [taken] at same
        obtain rfl := List.head_eq_of_cons_eq same
        rcases plus with plus | plus <;> cases plus
    dsimp only at same
    rw [unsigned] at same
    have tail : name.text = rest := List.tail_eq_of_cons_eq same
    exact ⟨char, tail ▸ head, named⟩
  · have begins : (row [number unicode, radical unicode, degree unicode]).Begins
        (fun char => char = '+' ∨ char = '-' ∨ unicode.isDecimal char = true) := by
      refine ⟨rfl, ?_⟩
      simp [number, row, sign, opt, digits, MayBegin, Filled]
      exact fun char decimal => .inr (.inr decimal)
    obtain ⟨char, head, opens⟩ := finds_begins begins plain
    rw [same] at head
    obtain rfl : '\\' = char := Option.some.inj head
    rcases opens with opens | opens | decimal
    · cases opens
    · cases opens
    · exact absurd rfl (decimal_apart decimal (by decide) (by decide))

theorem IsAnswer.unwrapped {core opening : List Char} (answer : IsAnswer unicode core)
    (wrapper : OpeningWrapper opening) : ¬ opening <+: core := by
  rintro ⟨rest, rfl⟩
  obtain ⟨char, head, opens⟩ := answer.head
  rcases wrapper with rfl | rfl
  · obtain rfl : '$' = char := Option.some.inj head
    rcases opens with opens | (opens | opens | opens | decimal) | upper
    · cases opens
    · cases opens
    · cases opens
    · cases opens
    · exact decimal_apart decimal (by decide) (by decide) rfl
    · cases upper
  · rcases answer with group | number | name
    · cases (group_ends group).1
    · obtain ⟨char, head, named⟩ := number_command number
      obtain rfl : '(' = char := Option.some.inj head
      rcases named with named | named <;> cases named
    · obtain ⟨-, ⟨char, head, upper⟩, -⟩ := name_spec name
      obtain rfl : '\\' = char := Option.some.inj head
      cases upper

/-- Characters an introducing word is of. -/
def Introduces (unicode : Unicode) (char : Char) : Prop :=
  char = ':' ∨ char = '=' ∨ unicode.isWord char = true

theorem introductionWord_within : introductionWord.Within (Introduces unicode) := by
  have words {word : List Char} (small : ∀ letter ∈ word, letter.isLower = true) :
      (anyCase word).Within (Introduces unicode) := by
    induction word with
    | nil => exact trivial
    | cons letter word ih =>
      obtain ⟨here, others⟩ := List.forall_mem_cons.mp small
      exact ⟨fun char same => .inr (.inr (sameLetter_word here same)), ih others⟩
  refine ⟨fun char mark => ?_, words (by decide), words (by decide), ⟨words (by decide), words (by decide),
    trivial⟩, ⟨words (by decide), words (by decide), trivial⟩, words (by decide), words (by decide), trivial⟩
  simp only [Bool.or_eq_true, beq_iff_eq] at mark
  exact mark.elim .inl (fun equality => .inr (.inl equality))

theorem introductionWord_ends : introductionWord.Ends (Introduces unicode) :=
  ⟨rfl, MayEnd.of_within introductionWord_within⟩

theorem introductionWord_begins : introductionWord.Begins (Introduces unicode) :=
  ⟨rfl, MayBegin.of_within introductionWord_within⟩

theorem not_introduces {mark : Char} (ascii : mark.toNat < 128) (other : mark.isAlphanum = false)
    (plain : mark ≠ ':' ∧ mark ≠ '=' ∧ mark ≠ '_') : ¬ Introduces unicode mark := by
  rintro (same | same | word)
  · exact plain.1 same
  · exact plain.2.1 same
  · rw [unicode.asciiWord mark ascii, other, Bool.false_or, beq_iff_eq] at word
    exact plain.2.2 word

theorem space_not_introduces {char : Char} (space : unicode.isSpace char = true) :
    ¬ Introduces unicode char := by
  rintro (rfl | rfl | word)
  · rw [visible_ascii _ (by decide) (by decide)] at space
    cases space
  · rw [visible_ascii _ (by decide) (by decide)] at space
    cases space
  · rw [word_visible word] at space
    cases space

/-- A text presented as an answer begins with no introducing word. -/
theorem WholeAnswer.introduced {front core back : List Char}
    (whole : WholeAnswer unicode text front core back) :
    finds unicode.isWord introductionWord none text = [] := by
  have marked (char : Char) (rest : List Char) (other : ¬ Introduces unicode char) :
      finds unicode.isWord introductionWord none (char :: rest) = [] :=
    finds_of_matchAt_none rfl (matchAt_begins introductionWord_begins other)
  rw [whole.parts]
  cases front with
  | cons char front =>
    refine marked char _ ?_
    rcases whole.wrapping with ⟨nothing | ⟨gap, -, same⟩, -⟩ | ⟨gap, gap', -, -, same, -⟩
    · cases nothing
    · rw [List.head_eq_of_cons_eq same]
      exact not_introduces (by decide) (by decide) (by decide)
    · rw [List.head_eq_of_cons_eq same]
      exact not_introduces (by decide) (by decide) (by decide)
  | nil =>
    have quiet : ∀ char ∈ back, ¬ Introduces unicode char := by
      rcases whole.wrapping with ⟨-, rfl | ⟨gap, blank, rfl⟩⟩ | ⟨gap, gap', -, -, same, -⟩
      · exact nofun
      · refine List.forall_mem_append.mpr ⟨fun char member => space_not_introduces (blank char member), ?_⟩
        intro char member
        rw [List.mem_singleton.mp member]
        exact not_introduces (by decide) (by decide) (by decide)
      · cases same
    have apart : back.head?.any unicode.isWord = false := by
      cases back with
      | nil => rfl
      | cons char back =>
        exact Bool.eq_false_iff.mpr fun word => quiet char List.mem_cons_self (.inr (.inr word))
    have alone : matchAt unicode.isWord introductionWord none core = none := by
      rw [matchAt, whole.unintroduced rfl]
      rfl
    refine finds_of_matchAt_none rfl ?_
    rw [List.nil_append, matchAt_append rfl introductionWord_ends apart quiet, alone]
    rfl

theorem WholeAnswer.trim {front core back : List Char} (whole : WholeAnswer unicode text front core back)
    (stripped : Stripped unicode text) (oneLine : '\n' ∉ text) : trimMathTail unicode text = core := by
  have answer := whole.answer
  have coreStripped := answer.stripped
  -- the front shows at its first character, or is not there
  have frontHead : front = [] ∨ ∃ char others, front = char :: others ∧ unicode.isSpace char = false := by
    rcases whole.wrapping with ⟨rfl | ⟨gap, -, rfl⟩, -⟩ | ⟨gap, gap', -, -, rfl, -⟩
    · exact .inl rfl
    · exact .inr ⟨'$', gap, rfl, visible_ascii _ (by decide) (by decide)⟩
    · exact .inr ⟨'\\', '(' :: gap, rfl, visible_ascii _ (by decide) (by decide)⟩
  have opened : Stripped unicode (front ++ core) := by
    constructor
    · intro char head
      rcases frontHead with rfl | ⟨first, others, rfl, visible⟩
      · exact coreStripped.head char head
      · rw [← Option.some.inj head]
        exact visible
    · intro char final
      rw [List.getLast?_append, List.getLast?_eq_some_getLast answer.filled, Option.some_or,
        ← List.getLast?_eq_some_getLast] at final
      exact coreStripped.last char final
  have filled : front ++ core ≠ [] := List.append_ne_nil_of_right_ne_nil _ answer.filled
  have ended : strip unicode (sub unicode.isWord (ending unicode) (fun _ => []) none text) =
      front ++ core := by
    have parts := whole.parts
    have marked (gap mark : List Char) (blank : Blank unicode gap) (isMark : EndMark mark)
        (same : back = gap ++ mark) :
        strip unicode (sub unicode.isWord (ending unicode) (fun _ => []) none text) = front ++ core := by
      rw [same, ← List.append_assoc] at parts
      rw [parts] at oneLine stripped ⊢
      rw [sub_ending_hit oneLine stripped.last isMark]
      have between : strip unicode ([] ++ (front ++ core) ++ gap) = front ++ core :=
        strip_between nofun blank opened filled
      exact between
    rcases whole.wrapping with ⟨-, rfl | ⟨gap, blank, same⟩⟩ | ⟨gap, gap', -, blank, -, same⟩
    · rw [List.append_nil] at parts
      rw [sub_ending_miss oneLine stripped.last, strip_stripped stripped, parts]
      intro mark isMark suffix
      rw [parts] at suffix
      obtain ⟨rfl, closing⟩ := answer.mark isMark front suffix
      exact whole.unmarked rfl closing
    · exact marked gap ['$'] blank (.inl rfl) same
    · exact marked gap' ['\\', ')'] blank (.inr (.inl rfl)) same
  rw [trimMathTail, strip_stripped stripped, sub_introduction_miss whole.introduced, ended]
  have unwrap (opening gap : List Char) (blank : Blank unicode gap) (isOpening : OpeningWrapper opening)
      (same : front = opening ++ gap) :
      strip unicode (sub unicode.isWord wrapper (fun _ => []) none (front ++ core)) = core := by
    rcases @sub_wrapper unicode (front ++ core) with ⟨none, -⟩ | ⟨other, isOther, parts⟩
    · exact absurd ⟨gap ++ core, by rw [same, List.append_assoc]⟩ (none opening isOpening)
    · rw [same, List.append_assoc] at parts ⊢
      have rest : sub unicode.isWord wrapper (fun _ => []) none (opening ++ (gap ++ core)) =
          gap ++ core := by
        rcases isOpening with rfl | rfl <;> rcases isOther with rfl | rfl
        · exact (List.append_cancel_left parts).symm
        · exact absurd (List.head_eq_of_cons_eq parts) (by decide)
        · exact absurd (List.head_eq_of_cons_eq parts) (by decide)
        · exact (List.append_cancel_left parts).symm
      have between : strip unicode (gap ++ core ++ []) = core :=
        strip_between blank nofun coreStripped answer.filled
      rw [List.append_nil] at between
      rw [rest, between]
  rcases whole.wrapping with ⟨rfl | ⟨gap, blank, same⟩, -⟩ | ⟨gap, gap', blank, -, same, -⟩
  · rcases @sub_wrapper unicode core with ⟨-, same⟩ | ⟨opening, isOpening, parts⟩
    · rw [List.nil_append, same, strip_stripped coreStripped]
    · exact absurd ⟨_, parts.symm⟩ (answer.unwrapped isOpening)
  · exact unwrap ['$'] gap blank (.inl rfl) same
  · exact unwrap ['\\', '('] gap blank (.inr rfl) same

end trimming

end SpecBlock.Scoring
