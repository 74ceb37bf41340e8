import SpecBlock.Scoring.MathNormalForm

/-!
# What normalisation does to the presentation of an answer

Lower case keeps marks and spaces. Then a dollar at either end, or a pair of inline parentheses, is taken
off, and spacing commands vanish wherever they stand. None of this reaches into an answer that is
presented, so the normal form of the presentation is that of the answer.
-/

namespace SpecBlock.Scoring

open Regex

variable {unicode : Unicode}

section lower

/-- A character that is no capital letter is its own small letter. -/
theorem toLower_same {char : Char} (other : char.isUpper = false) : char.toLower = char := by
  rw [Char.toLower, dif_neg]
  exact of_decide_eq_false other

theorem toLower_small {char : Char} (upper : char.isUpper = true) : char.toLower.isLower = true := by
  have range : char.val ≥ 'A'.val ∧ char.val ≤ 'Z'.val := of_decide_eq_true upper
  rw [Char.toLower, dif_pos range]
  have codes : 'A'.val.toNat = 65 ∧ 'Z'.val.toNat = 90 ∧ 'a'.val.toNat = 97 ∧ 'z'.val.toNat = 122 :=
    ⟨rfl, rfl, rfl, rfl⟩
  simp only [ge_iff_le, UInt32.le_iff_toNat_le] at range
  have sum : (char.val + ('a'.val - 'A'.val)).toNat = char.val.toNat + 32 := by
    rw [UInt32.toNat_add]
    have step : ('a'.val - 'A'.val).toNat = 32 := rfl
    omega
  simp only [Char.isLower, Bool.and_eq_true, decide_eq_true_eq, ge_iff_le, UInt32.le_iff_toNat_le, sum]
  omega

/-- A character of a text in lower case comes from one of the text. -/
theorem mem_lowerBehind {before text : List Char} {other : Char}
    (member : other ∈ lowerBehind unicode before text) :
    ∃ char ∈ text, other = 'ς' ∨ other = 'σ' ∨ other ∈ unicode.lowerChar char := by
  induction text generalizing before with
  | nil => cases member
  | cons char text ih =>
    rcases List.mem_append.mp member with here | later
    · refine ⟨char, .head _, ?_⟩
      split at here
      · split at here
        · exact .inl (List.mem_singleton.mp here)
        · exact .inr (.inl (List.mem_singleton.mp here))
      · exact .inr (.inr here)
    · obtain ⟨origin, inText, shape⟩ := ih later
      exact ⟨origin, .tail _ inText, shape⟩

theorem mem_lower {text : List Char} {mark : Char} (ascii : mark.toNat < 128)
    (other : mark.isAlpha = false) (member : mark ∈ lower unicode text) : mark ∈ text := by
  rw [Char.isAlpha, Bool.or_eq_false_iff] at other
  obtain ⟨char, inText, rfl | rfl | lowered⟩ := mem_lowerBehind member
  · exact absurd ascii (by decide)
  · exact absurd ascii (by decide)
  · by_cases low : char.toNat < 128
    · rw [unicode.asciiLower char low, List.mem_singleton] at lowered
      cases upper : char.isUpper with
      | true =>
        rw [lowered, toLower_small upper] at other
        cases other.2
      | false => rwa [lowered, toLower_same upper]
    · have small := unicode.lowered char mark (Nat.not_lt.mp low) lowered ascii
      rw [small] at other
      cases other.2

theorem lower_head {char small : Char} {text : List Char} (other : char ≠ 'Σ')
    (lowered : unicode.lowerChar char = [small]) : (lower unicode (char :: text)).head? = some small := by
  rw [lower, lowerBehind, if_neg other, lowered]
  rfl

theorem lower_last {char small : Char} (front : List Char) (other : char ≠ 'Σ')
    (lowered : unicode.lowerChar char = [small]) :
    (lower unicode (front ++ [char])).getLast? = some small := by
  have behind (before : List Char) :
      (lowerBehind unicode before (front ++ [char])).getLast? = some small := by
    induction front generalizing before with
    | nil =>
      rw [List.nil_append, lowerBehind, if_neg other, lowered]
      rfl
    | cons first front ih =>
      rw [List.cons_append, lowerBehind, List.getLast?_append, ih]
      rfl
  exact behind []

theorem lower_weight {weight : Char → Int} (marked : Marked weight) (text : List Char) :
    weigh weight (lower unicode text) = weigh weight text := by
  have marks : ∀ char ∈ ['(', ')', '[', ']', ':', ';'], char.toNat < 128 ∧ char.isAlpha = false := by
    decide
  have letter {char : Char} (alpha : char.isAlpha = true) : weight char = 0 := by
    refine marked.light char fun member => ?_
    rw [(marks char member).2] at alpha
    cases alpha
  have small {char : Char} (lower : char.isLower = true) : weight char = 0 :=
    letter (by rw [Char.isAlpha, lower, Bool.or_true])
  have beyond {char : Char} (high : 128 ≤ char.toNat) : weight char = 0 :=
    marked.light char fun member => absurd (marks char member).1 (Nat.not_lt.mpr high)
  have single (char : Char) : weigh weight (unicode.lowerChar char) = weight char := by
    by_cases low : char.toNat < 128
    · rw [unicode.asciiLower char low]
      refine (add_zero _).trans ?_
      cases upper : char.isUpper with
      | false => rw [toLower_same upper]
      | true =>
        rw [small (toLower_small upper), letter (by rw [Char.isAlpha, upper, Bool.true_or])]
    · rw [beyond (Nat.not_lt.mp low)]
      refine weigh_zero fun other member => ?_
      by_cases ascii : other.toNat < 128
      · exact small (unicode.lowered char other (Nat.not_lt.mp low) member ascii)
      · exact beyond (Nat.not_lt.mp ascii)
  have behind (before : List Char) :
      weigh weight (lowerBehind unicode before text) = weigh weight text := by
    induction text generalizing before with
    | nil => rfl
    | cons char text ih =>
      rw [lowerBehind, weigh_append, ih, weigh_cons]
      refine congrArg (· + weigh weight text) ?_
      split
      next sigma =>
        rw [sigma, @beyond 'Σ' (by decide)]
        split <;> exact (add_zero _).trans (beyond (by decide))
      next => exact single char
  exact behind []

end lower

section dollars

/-- What the pattern of the dollars finds: some of them, at the beginning or at the end. -/
theorem mem_dollars {last : Option Char} {text : List Char} {found : Found} :
    found ∈ finds unicode.isWord dollars last text ↔
      ∃ front rest, text = front ++ rest ∧ (∀ char ∈ front, char = '$') ∧ 1 ≤ front.length ∧
        (last = none ∨ rest = [] ∨ rest = ['\n']) ∧ found = ⟨front, [], rest⟩ := by
  constructor
  · intro member
    rcases List.mem_append.mp member with opening | closing
    · obtain ⟨first, atStart, next, inRun, rfl⟩ := mem_seq.mp opening
      obtain ⟨first, rfl⟩ := mem_start.mp atStart
      obtain ⟨front, rest, parts, all, long, rfl⟩ := mem_run.mp inRun
      exact ⟨front, rest, parts, fun char member => beq_iff_eq.mp (all char member), long, .inl first, rfl⟩
    · obtain ⟨first, inRun, next, atEnd, rfl⟩ := mem_seq.mp closing
      obtain ⟨front, rest, parts, all, long, rfl⟩ := mem_run.mp inRun
      obtain ⟨ended, rfl⟩ := mem_finish.mp atEnd
      exact ⟨front, rest, parts, fun char member => beq_iff_eq.mp (all char member), long, .inr ended,
        by rw [List.append_nil]; rfl⟩
  · rintro ⟨front, rest, rfl, all, long, first | ended, rfl⟩
    · refine List.mem_append_left _ (mem_seq.mpr ⟨_, mem_start.mpr ⟨first, rfl⟩, _, mem_run.mpr
        ⟨front, rest, rfl, fun char member => beq_iff_eq.mpr (all char member), long, rfl⟩, rfl⟩)
    · refine List.mem_append_right _ (mem_seq.mpr ⟨_, mem_run.mpr ⟨front, rest, rfl, fun char member =>
        beq_iff_eq.mpr (all char member), long, rfl⟩, _, mem_finish.mpr ⟨ended, rfl⟩, ?_⟩)
      rw [List.append_nil]
      rfl

variable {middle : List Char}

/-- In a text without dollars at its ends the pattern matches nowhere, but at a dollar behind. -/
theorem matchAt_dollars {first second back : List Char} {last : Option Char}
    (parts : first ++ second = middle) (filled : second ≠ []) (closed : back = [] ∨ back = ['$'])
    (head : middle.head? ≠ some '$') (final : middle.getLast? ≠ some '$') (oneLine : '\n' ∉ middle) :
    matchAt unicode.isWord dollars (lastOf last first) (second ++ back) = none := by
  have ends : second.getLast? = middle.getLast? := by
    rw [← parts, List.getLast?_append, List.getLast?_eq_some_getLast filled, Option.some_or]
  refine Option.eq_none_iff_forall_ne_some.mpr fun found here => ?_
  obtain ⟨front, rest, split, all, long, place, -⟩ := mem_dollars.mp (matchAt_mem here).1
  rcases place with atStart | rfl | rfl
  · cases first with
    | cons char first =>
      obtain ⟨other, same⟩ := lastOf_some char first
      rw [lastOf, same] at atStart
      cases atStart
    | nil =>
      obtain rfl : second = middle := parts
      cases front with
      | nil => cases long
      | cons char front =>
        have first := congrArg List.head? split
        rw [List.head?_append_of_ne_nil _ filled, List.cons_append, List.head?_cons,
          all char List.mem_cons_self] at first
        exact head first
  · rw [List.append_nil] at split
    have last := all (second.getLast filled)
      (split ▸ List.mem_append_left _ (List.getLast_mem filled))
    rw [← ends, List.getLast?_eq_some_getLast filled, last] at final
    exact final rfl
  · have last := congrArg List.getLast? split
    rw [List.getLast?_concat] at last
    rcases closed with rfl | rfl
    · rw [List.append_nil, ends] at last
      exact oneLine (List.mem_of_getLast? last)
    · rw [List.getLast?_concat] at last
      cases last

theorem subAll_dollars {front back : List Char} (opened : front = [] ∨ front = ['$'])
    (closed : back = [] ∨ back = ['$']) (filled : middle ≠ []) (head : middle.head? ≠ some '$')
    (final : middle.getLast? ≠ some '$') (oneLine : '\n' ∉ middle) :
    subAll unicode dollars (fun _ => []) (front ++ middle ++ back) = middle := by
  have behind (last : Option Char) :
      sub unicode.isWord dollars (fun _ => []) last (middle ++ back) = middle := by
    rcases closed with rfl | rfl
    · rw [List.append_nil]
      refine sub_nowhere fun first second parts => ?_
      by_cases nothing : second = []
      · rw [nothing]
        refine Option.eq_none_iff_forall_ne_some.mpr fun found here => ?_
        exact (matchAt_mem here).2 (List.append_eq_nil_iff.mp (matchAt_text here)).1
      · have none := @matchAt_dollars unicode middle first second [] last parts nothing (.inl rfl) head
          final oneLine
        rwa [List.append_nil] at none
    · have there : ⟨['$'], [], []⟩ ∈ finds unicode.isWord dollars (lastOf last middle) ['$'] :=
        mem_dollars.mpr ⟨['$'], [], rfl, fun _ member => List.mem_singleton.mp member, Nat.le_refl _,
          .inr (.inl rfl), rfl⟩
      obtain ⟨found, here⟩ := matchAt_isSome rfl there
      have whole : found.rest = [] := by
        have lengths := congrArg List.length (matchAt_text here)
        have long := List.length_pos_of_ne_nil (matchAt_mem here).2
        rw [List.length_append, List.length_singleton] at lengths
        exact List.length_eq_zero_iff.mp (by omega)
      rw [sub_end (fun first second parts filled =>
        matchAt_dollars parts filled (.inr rfl) head final oneLine) here whole, List.append_nil]
  rcases opened with rfl | rfl
  · exact behind none
  · have there : ⟨['$'], [], middle ++ back⟩ ∈
        finds unicode.isWord dollars none ('$' :: (middle ++ back)) :=
      mem_dollars.mpr ⟨['$'], middle ++ back, rfl, fun _ member => List.mem_singleton.mp member,
        Nat.le_refl _, .inl rfl, rfl⟩
    obtain ⟨found, here⟩ := matchAt_isSome rfl there
    obtain ⟨front, rest, split, all, long, -, rfl⟩ := mem_dollars.mp (matchAt_mem here).1
    -- the dollars in front end before the text, which begins with none
    have alone : rest = middle ++ back := by
      cases front with
      | nil => cases long
      | cons char front =>
        have tail : middle ++ back = front ++ rest := List.tail_eq_of_cons_eq split
        cases front with
        | nil => exact tail.symm
        | cons other front =>
          have first := congrArg List.head? tail
          rw [List.head?_append_of_ne_nil _ filled, List.cons_append, List.head?_cons,
            all other (.tail _ (.head _))] at first
          exact absurd first head
    have whole : sub unicode.isWord dollars (fun _ => []) none ('$' :: (middle ++ back)) = middle := by
      rw [sub_hit here, List.nil_append]
      exact (congrArg _ alone).trans (behind _)
    exact whole

end dollars

section inline

/-- A text that does not begin with an opening parenthesis of inline mathematics stays. -/
theorem subAll_inlineMath_miss {text : List Char} (other : ¬ ['\\', '('] <+: text) :
    subAll unicode inlineMath (fun group => group 1) text = text := by
  refine sub_start_miss rfl (Option.eq_none_iff_forall_ne_some.mpr fun found here => ?_)
  obtain ⟨first, atStart, next, inNext, -⟩ := mem_seq.mp (matchAt_mem here).1
  obtain ⟨-, rfl⟩ := mem_start.mp atStart
  obtain ⟨opening, inLit, -⟩ := mem_seq.mp inNext
  obtain ⟨rest, parts, -⟩ := mem_lit.mp inLit
  exact other ⟨rest, parts.symm⟩

/-- The pair of parentheses of inline mathematics is taken off. -/
theorem subAll_inlineMath_hit {middle : List Char} (oneLine : '\n' ∉ middle) :
    subAll unicode inlineMath (fun group => group 1) (['\\', '('] ++ middle ++ ['\\', ')']) = middle := by
  have there : (⟨['\\', '('] ++ (middle ++ ['\\', ')']), [(1, middle)], []⟩ : Found) ∈
      finds unicode.isWord inlineMath none (['\\', '('] ++ middle ++ ['\\', ')']) := by
    refine mem_seq.mpr ⟨_, mem_start.mpr ⟨rfl, rfl⟩, _, mem_seq.mpr ⟨_, mem_lit.mpr
      ⟨middle ++ ['\\', ')'], List.append_assoc _ _ _, rfl⟩, _, mem_seq.mpr ⟨_, List.mem_map.mpr ⟨_,
        mem_run.mpr ⟨middle, ['\\', ')'], rfl, fun char member => ?_, Nat.zero_le _, rfl⟩, rfl⟩, _,
      mem_seq.mpr ⟨_, mem_lit.mpr ⟨[], rfl, rfl⟩, _, mem_finish.mpr ⟨.inl rfl, rfl⟩, rfl⟩, rfl⟩, rfl⟩, ?_⟩
    · rw [bne_iff_ne]
      rintro rfl
      exact oneLine member
    · rfl
  obtain ⟨found, here⟩ := matchAt_isSome rfl there
  obtain ⟨first, atStart, next, inNext, rfl⟩ := mem_seq.mp (matchAt_mem here).1
  obtain ⟨-, rfl⟩ := mem_start.mp atStart
  obtain ⟨opening, inOpening, next, inRest, rfl⟩ := mem_seq.mp inNext
  obtain ⟨behind, split, rfl⟩ := mem_lit.mp inOpening
  obtain ⟨grouped, inGroup, next, inEnd, rfl⟩ := mem_seq.mp inRest
  obtain ⟨inner, inRun, rfl⟩ := List.mem_map.mp inGroup
  obtain ⟨front, rest, parts, -, -, rfl⟩ := mem_run.mp inRun
  obtain ⟨closing, inClosing, final, atEnd, rfl⟩ := mem_seq.mp inEnd
  obtain ⟨left, shape, rfl⟩ := mem_lit.mp inClosing
  obtain ⟨ended, rfl⟩ := mem_finish.mp atEnd
  have parts : behind = front ++ rest := parts
  have shape : rest = ['\\', ')'] ++ left := shape
  have split : ['\\', '('] ++ middle ++ ['\\', ')'] = ['\\', '('] ++ behind := split
  rw [List.append_assoc] at split
  have whole : middle ++ ['\\', ')'] = front ++ (['\\', ')'] ++ left) := by
    rw [← shape, ← parts]
    exact List.append_cancel_left split
  have ended : left = [] ∨ left = ['\n'] := ended
  rcases ended with rfl | rfl
  · rw [List.append_nil] at whole
    obtain rfl := (List.append_inj' whole rfl).1
    exact (sub_start_hit rfl here).trans (List.append_nil _)
  · have last := congrArg List.getLast? whole
    rw [List.getLast?_append, ← List.append_assoc, List.getLast?_concat] at last
    cases last

end inline

section spacing

/-- Text in which every backslash stands in front of a parenthesis. -/
def Quiet (text : List Char) : Prop :=
  ∀ front rest, text = front ++ '\\' :: rest → ∃ next ∈ ['(', ')'], rest.head? = some next

theorem Quiet.of_not_mem {text : List Char} (absent : '\\' ∉ text) : Quiet text := by
  rintro front rest rfl
  exact absurd (List.mem_append_right front List.mem_cons_self) absent

theorem Quiet.parenthesis {mark : Char} (member : mark ∈ ['(', ')']) : Quiet ['\\', mark] := by
  intro front rest parts
  cases front with
  | nil => exact ⟨mark, member, by rw [← List.tail_eq_of_cons_eq parts]; rfl⟩
  | cons char front =>
    have tail : [mark] = front ++ '\\' :: rest := List.tail_eq_of_cons_eq parts
    cases front with
    | nil =>
      obtain rfl := List.head_eq_of_cons_eq tail
      exact absurd member (by decide)
    | cons other front => cases front <;> cases List.tail_eq_of_cons_eq tail

theorem Quiet.append {first second : List Char} (quiet : Quiet first) (quiet' : Quiet second) :
    Quiet (first ++ second) := by
  intro front rest parts
  obtain ⟨more, -, back⟩ | ⟨more, middle, back⟩ := List.append_eq_append_iff.mp parts
  · exact quiet' more rest back
  · cases more with
    | nil => exact quiet' [] rest back.symm
    | cons char more =>
      obtain rfl := List.head_eq_of_cons_eq back
      obtain ⟨next, member, head⟩ := quiet front more middle
      refine ⟨next, member, ?_⟩
      have tail : rest = more ++ second := List.tail_eq_of_cons_eq back
      rw [tail, List.head?_append, head, Option.some_or]

/-- What a spacing command has behind its backslash. -/
def spacings : List (List Char) :=
  [['l', 'e', 'f', 't'], ['r', 'i', 'g', 'h', 't'], [','], ['!'], [';'], [':'], [' ']]

theorem finds_spacing {last : Option Char} {text : List Char} {found : Found}
    (member : found ∈ finds unicode.isWord spacing last text) :
    ∃ command ∈ spacings, found.text = '\\' :: command := by
  obtain ⟨first, inLit, next, inAny, rfl⟩ := mem_seq.mp member
  obtain ⟨rest, -, rfl⟩ := mem_lit.mp inLit
  obtain ⟨pattern, inPatterns, inPattern⟩ := mem_any.mp inAny
  simp only [List.mem_cons, List.not_mem_nil, or_false] at inPatterns
  have written {command : List Char} (inSpacings : command ∈ spacings)
      (inCommand : next ∈ finds unicode.isWord (lit command) (lastOf last ['\\']) rest) :
      ∃ command ∈ spacings, ['\\'] ++ next.text = '\\' :: command := by
    obtain ⟨_, -, rfl⟩ := mem_lit.mp inCommand
    exact ⟨command, inSpacings, rfl⟩
  rcases inPatterns with rfl | rfl | rfl | rfl | rfl | rfl | rfl <;> exact written (by decide) inPattern

/-- Spacing commands are searched for behind a quiet text only. -/
theorem sub_spacing_front {front : List Char} (quiet : Quiet front) (last : Option Char)
    (text : List Char) : sub unicode.isWord spacing (fun _ => []) last (front ++ text) =
      front ++ sub unicode.isWord spacing (fun _ => []) (lastOf last front) text := by
  induction front generalizing last with
  | nil => rfl
  | cons char front ih =>
    have none : matchAt unicode.isWord spacing last (char :: (front ++ text)) = none := by
      refine Option.eq_none_iff_forall_ne_some.mpr fun found here => ?_
      obtain ⟨command, member, taken⟩ := finds_spacing (matchAt_mem here).1
      have parts := matchAt_text here
      rw [taken, List.cons_append] at parts
      obtain rfl := List.head_eq_of_cons_eq parts
      obtain ⟨next, inPair, head⟩ := quiet [] front rfl
      have tail : command ++ found.rest = front ++ text := List.tail_eq_of_cons_eq parts
      have apart : ∀ command ∈ spacings, ∀ next ∈ ['(', ')'], command ≠ [] ∧ command.head? ≠ some next := by
        decide
      obtain ⟨filled, other⟩ := apart command member next inPair
      have first := congrArg List.head? tail
      rw [List.head?_append_of_ne_nil _ filled, List.head?_append, head, Option.some_or] at first
      exact other first
    rw [List.cons_append, sub_miss none, ih]
    · rfl
    · intro front' rest parts
      exact quiet (char :: front') rest (congrArg (char :: ·) parts)

/-- Spacing commands do not reach across the ends of a text that ends in no backslash and has no letter
behind. -/
theorem subAll_spacing {front text back : List Char} (quiet : Quiet front) (quiet' : Quiet back)
    (apart : back.head?.any unicode.isWord = false) (final : text.getLast? ≠ some '\\') :
    subAll unicode spacing (fun _ => []) (front ++ text ++ back) =
      front ++ subAll unicode spacing (fun _ => []) text ++ back := by
  have within (last : Option Char) (second : List Char) (filled : second ≠ []) (suffix : second <:+ text)
      (found : Found) (member : found ∈ finds unicode.isWord spacing last (second ++ back)) :
      back.length ≤ found.rest.length := by
    by_contra beyond
    obtain ⟨command, inSpacings, taken⟩ := finds_spacing member
    obtain ⟨more, parts, rest⟩ | ⟨more, parts, rest⟩ := List.append_eq_append_iff.mp (finds_text member)
    · rw [rest, List.length_append] at beyond
      omega
    · have more_filled : more ≠ [] := by
        rintro rfl
        exact beyond (Nat.le_of_eq (congrArg List.length rest))
      obtain ⟨char, others, rfl⟩ := List.exists_cons_of_ne_nil more_filled
      cases second with
      | nil => exact filled rfl
      | cons first second =>
        have split : '\\' :: command = first :: (second ++ char :: others) := taken.symm.trans parts
        obtain rfl := List.head_eq_of_cons_eq split
        have tail : command = second ++ char :: others := List.tail_eq_of_cons_eq split
        cases second with
        | nil =>
          obtain ⟨before, whole⟩ := suffix
          rw [← whole, List.getLast?_concat] at final
          exact final rfl
        | cons second seconds =>
          -- the character behind would be a letter of a long command
          have long : ∀ command ∈ spacings, 2 ≤ command.length → ∀ char ∈ command,
              char.isAlpha = true := by decide
          have alpha : char.isAlpha = true := by
            refine long command inSpacings ?_ char ?_
            · rw [tail, List.length_append, List.length_cons, List.length_cons]
              omega
            · rw [tail]
              exact List.mem_append_right _ List.mem_cons_self
          rw [rest, List.cons_append, List.head?_cons, Option.any_some, isAlpha_word alpha] at apart
          cases apart
  have behind (last : Option Char) : sub unicode.isWord spacing (fun _ => []) last back = back := by
    have whole := @sub_spacing_front unicode back quiet' last []
    rw [List.append_nil] at whole
    exact whole.trans (List.append_nil _)
  rw [subAll, List.append_assoc, sub_spacing_front quiet, sub_extend rfl apart within, behind,
    sub_blind rfl _ none, List.append_assoc]
  rfl

end spacing

section presented

variable {core : List Char}

/-- The first character of an answer in lower case; a backslash was one. -/
theorem IsAnswer.lower_head (answer : IsAnswer unicode core) :
    ∃ char, (lower unicode core).head? = some char ∧
      (char = '(' ∨ OpensNumber unicode char ∨ char.isLower = true) ∧
        (char = '\\' → core.head? = some '\\') := by
  obtain ⟨char, head, opens⟩ := answer.head
  obtain ⟨others, rfl⟩ := List.head?_eq_some_iff.mp head
  have ascii (low : char.toNat < 128) (other : char.isUpper = false) :
      (lower unicode (char :: others)).head? = some char := by
    refine Scoring.lower_head ?_ ((unicode.asciiLower char low).trans (by rw [toLower_same other]))
    rintro rfl
    exact absurd low (by decide)
  have kept : char = '\\' → (char :: others).head? = some '\\' := fun same => same ▸ rfl
  rcases opens with rfl | (rfl | rfl | rfl | decimal) | upper
  · exact ⟨_, ascii (by decide) (by decide), .inl rfl, kept⟩
  · exact ⟨_, ascii (by decide) (by decide), .inr (.inl (.inl rfl)), kept⟩
  · exact ⟨_, ascii (by decide) (by decide), .inr (.inl (.inr (.inl rfl))), kept⟩
  · exact ⟨_, ascii (by decide) (by decide), .inr (.inl (.inr (.inr (.inl rfl)))), kept⟩
  · refine ⟨char, Scoring.lower_head ?_ (unicode.decimal char decimal).2.2.2,
      .inr (.inl (.inr (.inr (.inr decimal)))), kept⟩
    rintro rfl
    rw [(unicode.symbols 'Σ' (by decide)).2] at decimal
    cases decimal
  · have code := @isAlpha_code char (by rw [Char.isAlpha, upper, Bool.true_or])
    have small := toLower_small upper
    refine ⟨char.toLower, Scoring.lower_head ?_ (unicode.asciiLower char (by omega)),
      .inr (.inr small), fun same => ?_⟩
    · rintro rfl
      cases upper
    · rw [same] at small
      cases small

theorem IsAnswer.lower_last (answer : IsAnswer unicode core) :
    ∃ char, (lower unicode core).getLast? = some char ∧ (char = ')' ∨ ClosesNumber unicode char) := by
  obtain ⟨front, char, rfl⟩ : ∃ front char, core = front ++ [char] :=
    ⟨_, _, (List.dropLast_append_getLast answer.filled).symm⟩
  have closes : char = ')' ∨ ClosesNumber unicode char := by
    rcases answer.last with ⟨-, last⟩ | ⟨other, last, closes⟩
    · rw [List.getLast?_concat] at last
      exact .inl (Option.some.inj last)
    · rw [List.getLast?_concat] at last
      exact .inr (Option.some.inj last ▸ closes)
  have ascii (low : char.toNat < 128) :
      (lower unicode (front ++ [char])).getLast? = some char.toLower := by
    refine Scoring.lower_last front ?_ (unicode.asciiLower char low)
    rintro rfl
    exact absurd low (by decide)
  rcases closes with rfl | rfl | rfl | alphanum | decimal
  · exact ⟨_, ascii (by decide), .inl rfl⟩
  · exact ⟨_, ascii (by decide), .inr (.inl rfl)⟩
  · exact ⟨_, Scoring.lower_last front (by decide) unicode.degrees, .inr (.inr (.inl rfl))⟩
  · have low : char.toNat < 128 := by
      rw [Char.isAlphanum, Bool.or_eq_true] at alphanum
      rcases alphanum with alpha | digit
      · have code := isAlpha_code alpha
        omega
      · have code := isDigit_code digit
        omega
    refine ⟨_, ascii low, .inr (.inr (.inr (.inl ?_)))⟩
    cases upper : char.isUpper with
    | true => rw [Char.isAlphanum, Char.isAlpha, toLower_small upper, Bool.or_true, Bool.true_or]
    | false => rwa [toLower_same upper]
  · refine ⟨char, Scoring.lower_last front ?_ (unicode.decimal char decimal).2.2.2,
      .inr (.inr (.inr (.inr decimal)))⟩
    rintro rfl
    rw [(unicode.symbols 'Σ' (by decide)).2] at decimal
    cases decimal

/-- A mark of the character set that an answer in lower case does not begin with. -/
theorem IsAnswer.lower_head_ne (answer : IsAnswer unicode core) {mark : Char} (ascii : mark.toNat < 128)
    (other : mark ∉ ['(', '+', '-', '\\']) (plain : mark.isDigit = false ∧ mark.isLower = false) :
    (lower unicode core).head? ≠ some mark := by
  obtain ⟨char, head, opens, -⟩ := answer.lower_head
  rw [head]
  intro same
  obtain rfl := Option.some.inj same
  rcases opens with rfl | (rfl | rfl | rfl | decimal) | small
  · exact other (by decide)
  · exact other (by decide)
  · exact other (by decide)
  · exact other (by decide)
  · exact decimal_apart decimal ascii plain.1 rfl
  · rw [plain.2] at small
    cases small

/-- A mark of the character set that an answer in lower case does not end with. -/
theorem IsAnswer.lower_last_ne (answer : IsAnswer unicode core) {mark : Char} (ascii : mark.toNat < 128)
    (other : mark ≠ ')' ∧ mark ≠ '}') (plain : mark.isAlphanum = false) :
    (lower unicode core).getLast? ≠ some mark := by
  obtain ⟨char, last, closes⟩ := answer.lower_last
  rw [last]
  intro same
  obtain rfl := Option.some.inj same
  exact closes.elim other.1 (not_closes ascii other.2 plain)

/-- An answer in lower case does not begin with a parenthesis of inline mathematics. -/
theorem IsAnswer.lower_unwrapped (answer : IsAnswer unicode core) :
    ¬ ['\\', '('] <+: lower unicode core := by
  rintro ⟨rest, parts⟩
  obtain ⟨char, head, -, kept⟩ := answer.lower_head
  rw [← parts] at head
  obtain rfl : '\\' = char := Option.some.inj head
  obtain ⟨others, rfl⟩ := List.head?_eq_some_iff.mp (kept rfl)
  rcases answer with group | number | name
  · cases (group_ends group).1
  · obtain ⟨next, first, named⟩ := number_command number
    obtain ⟨behind, rfl⟩ := List.head?_eq_some_iff.mp first
    rcases named with rfl | rfl <;>
      (rw [lower, lowerBehind, if_neg (by decide), unicode.asciiLower _ (by decide), lowerBehind,
          if_neg (by decide), unicode.asciiLower _ (by decide)] at parts
       cases List.head_eq_of_cons_eq (List.tail_eq_of_cons_eq parts))
  · obtain ⟨-, ⟨first, same, upper⟩, -⟩ := name_spec name
    obtain rfl : '\\' = first := Option.some.inj same
    cases upper

/-- What may stand between the dollars of a presentation and its answer: text that no stage reaches into
the answer from. -/
structure Around (unicode : Unicode) (front back : List Char) : Prop where
  quiet : Quiet front
  quiet' : Quiet back
  apart : back.head?.any unicode.isWord = false
  head : front.head? ≠ some '$' ∧ front.head? ≠ some '\\'
  last : back.getLast? ≠ some '$'
  oneLine : '\n' ∉ front ∧ '\n' ∉ back

variable {front back : List Char}

/-- In front of nothing, and behind nothing, stands no such text. -/
theorem Around.nil : Around unicode [] [] :=
  ⟨.of_not_mem nofun, .of_not_mem nofun, rfl, ⟨nofun, nofun⟩, nofun, nofun, nofun⟩

/-- Dollars at the ends are taken off, spacing commands of the answer vanish, and the rest stays. -/
theorem IsAnswer.unwrapped_spacing (answer : IsAnswer unicode core) (oneLine : '\n' ∉ core)
    (around : Around unicode front back) {opened closed : List Char} (opening : opened = [] ∨ opened = ['$'])
    (closing : closed = [] ∨ closed = ['$']) :
    Scoring.unwrapped unicode (opened ++ (front ++ lower unicode core ++ back) ++ closed) =
      front ++ subAll unicode spacing (fun _ => []) (lower unicode core) ++ back := by
  obtain ⟨first, head, -⟩ := answer.lower_head
  have filled : lower unicode core ≠ [] := List.ne_nil_of_mem (List.mem_of_mem_head? head)
  have noDollar : (lower unicode core).head? ≠ some '$' :=
    answer.lower_head_ne (by decide) (by decide) (by decide)
  have noDollar' : (lower unicode core).getLast? ≠ some '$' :=
    answer.lower_last_ne (by decide) (by decide) (by decide)
  have noSlash : (lower unicode core).getLast? ≠ some '\\' :=
    answer.lower_last_ne (by decide) (by decide) (by decide)
  have line : '\n' ∉ lower unicode core := fun member =>
    oneLine (mem_lower (by decide) (by decide) member)
  have dollars := @subAll_dollars unicode (front ++ lower unicode core ++ back) opened closed opening
    closing (by simp [filled]) (by
      cases front with
      | nil =>
        rw [List.nil_append, List.head?_append_of_ne_nil _ filled]
        exact noDollar
      | cons char front => exact around.head.1) (by
      rw [List.getLast?_append]
      cases last : back.getLast? with
      | none =>
        rw [List.getLast?_append, List.getLast?_eq_some_getLast filled, Option.none_or, Option.some_or,
          ← List.getLast?_eq_some_getLast]
        exact noDollar'
      | some char =>
        rw [Option.some_or, ← last]
        exact around.last) (by simp [line, around.oneLine])
  have plain : ¬ ['\\', '('] <+: front ++ lower unicode core ++ back := by
    cases front with
    | cons char front =>
      rintro ⟨rest, parts⟩
      exact around.head.2 (congrArg some (List.head_eq_of_cons_eq parts).symm)
    | nil =>
      rw [List.nil_append]
      intro announced
      by_cases long : 2 ≤ (lower unicode core).length
      · exact answer.lower_unwrapped
          (List.prefix_of_prefix_length_le announced (List.prefix_append _ back) long)
      · obtain ⟨others, shape⟩ := List.head?_eq_some_iff.mp head
        rw [shape, List.length_cons] at long
        obtain rfl : others = [] := List.length_eq_zero_iff.mp (by omega)
        rw [shape] at announced noSlash
        obtain ⟨rest, parts⟩ := announced
        obtain rfl : '\\' = first := List.head_eq_of_cons_eq parts
        exact noSlash rfl
  rw [Scoring.unwrapped, dollars, subAll_inlineMath_miss plain, subAll_spacing around.quiet around.quiet' around.apart noSlash]

/-- Of an answer by itself nothing is taken but its spacing commands. -/
theorem IsAnswer.unwrapped_alone (answer : IsAnswer unicode core) (oneLine : '\n' ∉ core) :
    Scoring.unwrapped unicode (lower unicode core) =
      subAll unicode spacing (fun _ => []) (lower unicode core) := by
  have alone := answer.unwrapped_spacing oneLine .nil (.inl rfl) (.inl rfl)
  simpa only [List.nil_append, List.append_nil] using alone

/-- Text around the answer of a presentation stays around what the answer becomes. -/
theorem IsAnswer.unwrapped_around (answer : IsAnswer unicode core) (oneLine : '\n' ∉ core)
    (around : Around unicode front back) {opened closed : List Char} (opening : opened = [] ∨ opened = ['$'])
    (closing : closed = [] ∨ closed = ['$']) :
    Scoring.unwrapped unicode (opened ++ (front ++ lower unicode core ++ back) ++ closed) =
      front ++ Scoring.unwrapped unicode (lower unicode core) ++ back := by
  rw [answer.unwrapped_spacing oneLine around opening closing, answer.unwrapped_alone oneLine]

theorem IsAnswer.unwrapped_inline (answer : IsAnswer unicode core) (oneLine : '\n' ∉ core)
    (around : Around unicode front back) :
    Scoring.unwrapped unicode (['\\', '('] ++ (front ++ lower unicode core ++ back) ++ ['\\', ')']) =
      front ++ Scoring.unwrapped unicode (lower unicode core) ++ back := by
  have noSlash : (lower unicode core).getLast? ≠ some '\\' :=
    answer.lower_last_ne (by decide) (by decide) (by decide)
  have line : '\n' ∉ front ++ lower unicode core ++ back := by
    have inner : '\n' ∉ lower unicode core := fun member =>
      oneLine (mem_lower (by decide) (by decide) member)
    simp [inner, around.oneLine]
  have dollars := @subAll_dollars unicode
    (['\\', '('] ++ (front ++ lower unicode core ++ back) ++ ['\\', ')']) [] [] (.inl rfl) (.inl rfl)
    (by simp) (by simp) (by rw [List.getLast?_append]; simp) (by simpa using line)
  rw [List.nil_append, List.append_nil] at dollars
  rw [answer.unwrapped_alone oneLine, Scoring.unwrapped, dollars, subAll_inlineMath_hit line,
    subAll_spacing around.quiet around.quiet' around.apart noSlash]

theorem Plain.ascii {mark : Char} (low : mark.toNat < 128) (other : mark.isAlpha = false) :
    Plain unicode mark := by
  rw [Char.isAlpha, Bool.or_eq_false_iff] at other
  refine ⟨?_, ?_, ?_⟩
  · rw [unicode.asciiLower mark low, toLower_same other.1]
  · rw [unicode.asciiCased mark low, Char.isAlpha, other.1, other.2]
    rfl
  · rintro rfl
    exact absurd low (by decide)

theorem dollar_plain {mark : List Char} (isMark : mark = [] ∨ mark = ['$']) :
    ∀ char ∈ mark, Plain unicode char := by
  rcases isMark with rfl | rfl
  · exact nofun
  · exact List.forall_mem_singleton.mpr (.ascii (by decide) (by decide))

theorem Blank.plain {gap : List Char} (blank : Blank unicode gap) : ∀ char ∈ gap, Plain unicode char := by
  intro char member
  obtain ⟨-, uncased, lowered⟩ := unicode.space char (blank char member)
  refine ⟨lowered, uncased, ?_⟩
  rintro rfl
  have spaced := blank 'Σ' member
  rw [(unicode.symbols 'Σ' (by decide)).1] at spaced
  cases spaced

theorem Blank.not_mem {gap : List Char} (blank : Blank unicode gap) {mark : Char}
    (visible : unicode.isSpace mark = false) : mark ∉ gap := by
  intro member
  rw [blank mark member] at visible
  cases visible

theorem Blank.apart {gap : List Char} (blank : Blank unicode gap) : gap.head?.any unicode.isWord = false := by
  cases gap with
  | nil => rfl
  | cons char gap => exact (unicode.space char (blank char List.mem_cons_self)).1

theorem Around.blank {gap gap' : List Char} (blank : Blank unicode gap) (blank' : Blank unicode gap')
    (oneLine : '\n' ∉ gap ∧ '\n' ∉ gap') : Around unicode gap gap' := by
  have dollar : unicode.isSpace '$' = false := visible_ascii _ (by decide) (by decide)
  have slash : unicode.isSpace '\\' = false := visible_ascii _ (by decide) (by decide)
  exact ⟨.of_not_mem (blank.not_mem slash), .of_not_mem (blank'.not_mem slash), blank'.apart,
    ⟨fun head => blank.not_mem dollar (List.mem_of_mem_head? head),
      fun head => blank.not_mem slash (List.mem_of_mem_head? head)⟩,
    fun last => blank'.not_mem dollar (List.mem_of_getLast? last), oneLine⟩

/-- The normal form of a presented answer is the normal form of the answer. -/
theorem WholeAnswer.canonical {text : List Char} (whole : WholeAnswer unicode text front core back)
    (stripped : Stripped unicode text) (oneLine : '\n' ∉ text) :
    Scoring.canonical unicode text = Scoring.canonical unicode core := by
  have answer := whole.answer
  rw [whole.parts] at oneLine
  obtain ⟨⟨lineFront, lineCore⟩, lineBack⟩ : ('\n' ∉ front ∧ '\n' ∉ core) ∧ '\n' ∉ back := by
    simpa only [List.mem_append, not_or] using oneLine
  have notation_eq : canonicalNotation unicode (Scoring.unwrapped unicode (lower unicode text)) =
      canonicalNotation unicode (Scoring.unwrapped unicode (lower unicode core)) := by
    rw [whole.parts]
    rcases whole.wrapping with ⟨opening, closing⟩ | ⟨gap, gap', blank, blank', rfl, rfl⟩
    · obtain ⟨opened, gap, isOpened, blank, rfl⟩ : ∃ opened gap, (opened = [] ∨ opened = ['$']) ∧
          Blank unicode gap ∧ front = opened ++ gap := by
        rcases opening with rfl | ⟨gap, blank, rfl⟩
        · exact ⟨[], [], .inl rfl, nofun, rfl⟩
        · exact ⟨['$'], gap, .inr rfl, blank, rfl⟩
      obtain ⟨closed, gap', isClosed, blank', rfl⟩ : ∃ closed gap', (closed = [] ∨ closed = ['$']) ∧
          Blank unicode gap' ∧ back = gap' ++ closed := by
        rcases closing with rfl | ⟨gap', blank', rfl⟩
        · exact ⟨[], [], .inl rfl, nofun, rfl⟩
        · exact ⟨['$'], gap', .inr rfl, blank', rfl⟩
      rw [List.mem_append, not_or] at lineFront lineBack
      have around := Around.blank blank blank' ⟨lineFront.2, lineBack.1⟩
      rw [lower_around (List.forall_mem_append.mpr ⟨dollar_plain isOpened, blank.plain⟩)
        (List.forall_mem_append.mpr ⟨blank'.plain, dollar_plain isClosed⟩)]
      have shape := answer.unwrapped_around lineCore around isOpened isClosed
      simp only [List.append_assoc] at shape ⊢
      rw [shape, ← List.append_assoc, canonicalNotation_blank blank blank']
    · rw [List.mem_append, not_or] at lineFront lineBack
      have around := Around.blank blank blank' ⟨lineFront.2, lineBack.1⟩
      have pair (mark : Char) (member : mark ∈ ['(', ')']) : ∀ char ∈ ['\\', mark], Plain unicode char := by
        simp only [List.mem_cons, List.not_mem_nil, or_false] at member
        rcases member with rfl | rfl <;>
          exact List.forall_mem_cons.mpr ⟨.ascii (by decide) (by decide),
            List.forall_mem_singleton.mpr (.ascii (by decide) (by decide))⟩
      rw [lower_around (List.forall_mem_append.mpr ⟨pair '(' (by decide), blank.plain⟩)
        (List.forall_mem_append.mpr ⟨blank'.plain, pair ')' (by decide)⟩)]
      have shape := answer.unwrapped_inline lineCore around
      simp only [List.append_assoc] at shape ⊢
      rw [shape, ← List.append_assoc, canonicalNotation_blank blank blank']
  rw [Scoring.canonical, Scoring.canonical, strip_stripped stripped, strip_stripped answer.stripped,
    notation_eq]

end presented

end SpecBlock.Scoring
