import SpecBlock.Scoring.MathIntroductions

/-!
# Which references a boxed prediction of them is correct for

A boxed prediction of a reference gives the reference itself, and its normal form is that of the whole
reference. The reference by itself gives what trimming leaves of it, if that is an answer as a whole. Both
normal forms are the same exactly for a reference that is an answer as a whole up to its presentation:
where trimming takes off more than a presentation, the normal form shows it.
-/

namespace SpecBlock.Scoring

open Regex

variable {unicode : Unicode}

section weights

variable {weight : Char → Int}

/-- What the pattern of inline mathematics takes is its group in a pair of parentheses. -/
theorem finds_inlineMath {last : Option Char} {text : List Char} {found : Found}
    (member : found ∈ finds unicode.isWord inlineMath last text) :
    found.text = ['\\', '('] ++ found.group 1 ++ ['\\', ')'] := by
  obtain ⟨first, atStart, next, inNext, rfl⟩ := mem_seq.mp member
  obtain ⟨-, rfl⟩ := mem_start.mp atStart
  obtain ⟨opening, inOpening, next, inRest, rfl⟩ := mem_seq.mp inNext
  obtain ⟨_, -, rfl⟩ := mem_lit.mp inOpening
  obtain ⟨grouped, inGroup, next, inEnd, rfl⟩ := mem_seq.mp inRest
  obtain ⟨inner, -, rfl⟩ := List.mem_map.mp inGroup
  obtain ⟨closing, inClosing, final, atEnd, rfl⟩ := mem_seq.mp inEnd
  obtain ⟨_, -, rfl⟩ := mem_lit.mp inClosing
  obtain ⟨-, rfl⟩ := mem_finish.mp atEnd
  exact (List.append_assoc _ _ _).symm

/-- Without dollars, a pair of parentheses and spacing commands a text weighs the same, where colons and
semicolons have no weight. -/
theorem unwrapped_weight (marked : Marked weight) (light : weight ':' = 0 ∧ weight ';' = 0)
    (text : List Char) : weigh weight (unwrapped unicode text) = weigh weight text := by
  have pair : ∀ middle, weigh weight (['\\', '('] ++ middle ++ ['\\', ')']) = weigh weight middle := by
    intro middle
    have slash : weight '\\' = 0 := marked.light '\\' (by decide)
    have pair := marked.pair
    rw [weigh_append, weigh_append]
    simp only [weigh, List.map_cons, List.map_nil, List.sum_cons, List.sum_nil, slash]
    omega
  have inlined (text : List Char) : weigh weight (subAll unicode inlineMath (fun group => group 1) text) =
      weigh weight text := by
    refine sub_weight fun last text found member => ?_
    rw [finds_inlineMath member, pair]
  rw [unwrapped, sub_weight_constant ?_ rfl rfl, inlined, sub_weight_constant ?_ rfl rfl]
  · simp [dollars, Weightless, marked.light]
  · simp [spacing, row, any, lit, Weightless, marked.light, light]

theorem canonical_weight (marked : Marked weight) (light : weight ':' = 0 ∧ weight ';' = 0)
    {text : List Char} (stripped : Stripped unicode text) :
    weigh weight (canonical unicode text) = weigh weight text := by
  rw [canonical, strip_stripped stripped, integerSurface_weight marked, canonicalNotation_weight marked,
    unwrapped_weight marked light, lower_weight marked]

theorem Blank.weightless (marked : Marked weight) {gap : List Char} (blank : Blank unicode gap) :
    weigh weight gap = 0 := weigh_zero fun char member => space_light marked (blank char member)

theorem introductionWord_weight (marked : Marked weight) (light : weight ':' = 0 ∧ weight ';' = 0)
    {last : Option Char} {text : List Char} {found : Found}
    (member : found ∈ finds unicode.isWord introductionWord last text) : weigh weight found.text = 0 := by
  refine weigh_zero fun char inText => ?_
  have introduces : Introduces unicode char := finds_within introductionWord_within member char inText
  by_cases mark : char ∈ ['(', ')', '[', ']', ':', ';']
  · simp only [List.mem_cons, List.not_mem_nil, or_false] at mark
    rcases mark with rfl | rfl | rfl | rfl | rfl | rfl
    · exact absurd introduces (not_introduces (by decide) (by decide) (by decide))
    · exact absurd introduces (not_introduces (by decide) (by decide) (by decide))
    · exact absurd introduces (not_introduces (by decide) (by decide) (by decide))
    · exact absurd introduces (not_introduces (by decide) (by decide) (by decide))
    · exact light.1
    · exact light.2
  · exact marked.light char mark

variable {text word lead opening gap gap' mark : List Char}

/-- Where the normal form of a text is that of what trimming leaves, what trimming takes off has no weight
together. -/
theorem Trimmed.weight_zero (trimmed : Trimmed unicode text word lead opening gap gap' mark)
    (marked : Marked weight) (light : weight ':' = 0 ∧ weight ';' = 0) (stripped : Stripped unicode text)
    (left : Stripped unicode (trimMathTail unicode text))
    (same : canonical unicode (trimMathTail unicode text) = canonical unicode text) :
    weigh weight opening + weigh weight mark = 0 := by
  have whole := congrArg (weigh weight) trimmed.parts
  have weights := congrArg (weigh weight) same
  rw [canonical_weight marked light left, canonical_weight marked light stripped] at weights
  have introduced : weigh weight word = 0 := by
    rcases trimmed.word with ⟨rfl, -⟩ | ⟨found, member, rfl⟩
    · rfl
    · exact introductionWord_weight marked light member
  simp only [weigh_append, introduced, trimmed.lead.weightless marked, trimmed.gap.weightless marked,
    trimmed.gap'.weightless marked] at whole
  omega

/-- Opening parentheses against closing ones. -/
def parenthesisWeight (char : Char) : Int := if char = '(' then 1 else if char = ')' then -1 else 0

/-- Closing brackets. -/
def bracketWeight (char : Char) : Int := if char = ']' then 1 else 0

theorem parenthesisWeight_marked : Marked parenthesisWeight := by
  refine ⟨fun char other => ?_, by decide⟩
  rw [parenthesisWeight, if_neg, if_neg]
  · rintro rfl
    exact other (by decide)
  · rintro rfl
    exact other (by decide)

theorem bracketWeight_marked : Marked bracketWeight := by
  refine ⟨fun char other => if_neg ?_, by decide⟩
  rintro rfl
  exact other (by decide)

/-- Trimming takes parentheses off as a pair, and no bracket. -/
theorem Trimmed.paired (trimmed : Trimmed unicode text word lead opening gap gap' mark)
    (stripped : Stripped unicode text) (left : Stripped unicode (trimMathTail unicode text))
    (same : canonical unicode (trimMathTail unicode text) = canonical unicode text) :
    mark ≠ [']'] ∧ (opening = ['\\', '('] ↔ mark = ['\\', ')']) := by
  have parentheses := trimmed.weight_zero parenthesisWeight_marked (by decide) stripped left same
  have brackets := trimmed.weight_zero bracketWeight_marked (by decide) stripped left same
  have opened : weigh parenthesisWeight opening = if opening = ['\\', '('] then 1 else 0 := by
    rcases trimmed.opening with rfl | rfl | rfl <;> decide
  have closed : weigh parenthesisWeight mark = if mark = ['\\', ')'] then -1 else 0 := by
    have dots : ∀ char ∈ ['.', '?', '!', ';', ':'], weigh parenthesisWeight [char] = 0 := by decide
    rcases trimmed.mark with (rfl | rfl | rfl | ⟨char, rfl, dot⟩) | ⟨rfl, -⟩
    · decide
    · decide
    · decide
    · rw [dots char (List.contains_iff_mem.mp dot), if_neg (nomatch ·)]
    · decide
  refine ⟨?_, ?_⟩
  · rintro rfl
    rcases trimmed.opening with rfl | rfl | rfl <;> exact absurd brackets (by decide)
  · rw [opened, closed] at parentheses
    by_cases here : opening = ['\\', '('] <;> by_cases there : mark = ['\\', ')'] <;>
      simp [here, there] at parentheses ⊢

/-- Colons and semicolons. -/
def colonWeight (char : Char) : Int := if char = ':' ∨ char = ';' then 1 else 0

theorem colonWeight_marked : Marked colonWeight := by
  refine ⟨fun char other => if_neg ?_, by decide⟩
  rintro (rfl | rfl) <;> exact other (by decide)

/-- A text without colons and semicolons is one that they give no weight. -/
theorem colonWeight_nonneg (text : List Char) :
    0 ≤ weigh colonWeight text ∧ (weigh colonWeight text = 0 → ∀ char ∈ text, char ≠ ':' ∧ char ≠ ';') := by
  induction text with
  | nil => exact ⟨Int.le_refl 0, nofun⟩
  | cons char text ih =>
    obtain ⟨rest, absent⟩ := ih
    rw [weigh_cons, colonWeight]
    split
    · exact ⟨by omega, by omega⟩
    next other =>
      refine ⟨by omega, fun nothing => List.forall_mem_cons.mpr ⟨not_or.mp other, absent (by omega)⟩⟩

/-- Where a text with more around an answer has the normal form of the answer, there are no colons and
semicolons around. -/
theorem colons_absent {core front back : List Char} (stripped : Stripped unicode text)
    (left : Stripped unicode core)
    (shape : unwrapped unicode (lower unicode text) = front ++ unwrapped unicode (lower unicode core) ++ back)
    (same : canonical unicode core = canonical unicode text) :
    (∀ char ∈ front, char ≠ ':' ∧ char ≠ ';') ∧ ∀ char ∈ back, char ≠ ':' ∧ char ≠ ';' := by
  have weights := congrArg (weigh colonWeight) same
  rw [canonical, canonical, strip_stripped stripped, strip_stripped left,
    integerSurface_weight colonWeight_marked, integerSurface_weight colonWeight_marked,
    canonicalNotation_weight colonWeight_marked, canonicalNotation_weight colonWeight_marked, shape,
    weigh_append, weigh_append] at weights
  obtain ⟨first, absent⟩ := colonWeight_nonneg front
  obtain ⟨second, absent'⟩ := colonWeight_nonneg back
  exact ⟨absent (by omega), absent' (by omega)⟩

end weights

section words

variable {reference : List Char}

/-- What introduces an answer is a colon, an equality sign, or a copula. -/
theorem introductionWord_copula {last : Option Char} {text : List Char} {found : Found}
    (member : found ∈ finds unicode.isWord introductionWord last text) :
    found.text = [':'] ∨ found.text = ['='] ∨ found ∈ finds unicode.isWord copulaWords last text ∧
      ∀ char ∈ found.text, unicode.isWord char = true := by
  have single {word : List Char} (small : ∀ letter ∈ word, letter.isLower = true)
      (listed : found ∈ finds unicode.isWord (anyCase word) last text →
        found ∈ finds unicode.isWord copulaWords last text)
      (inWord : found ∈ finds unicode.isWord (anyCase word) last text) :
      found ∈ finds unicode.isWord copulaWords last text ∧ ∀ char ∈ found.text, unicode.isWord char = true :=
    ⟨listed inWord, finds_within (anyCase_within small) inWord⟩
  have plural {word : List Char} (small : ∀ letter ∈ word, letter.isLower = true)
      (listed : found ∈ finds unicode.isWord (anyCasePlural word) last text →
        found ∈ finds unicode.isWord copulaWords last text)
      (inWord : found ∈ finds unicode.isWord (anyCasePlural word) last text) :
      found ∈ finds unicode.isWord copulaWords last text ∧
        ∀ char ∈ found.text, unicode.isWord char = true := by
    have within : (anyCasePlural word).Within (fun char => unicode.isWord char = true) :=
      ⟨anyCase_within small, anyCase_within (by decide), trivial⟩
    exact ⟨listed inWord, finds_within within inWord⟩
  obtain ⟨pattern, inPatterns, inPattern⟩ := mem_any.mp member
  simp only [List.mem_cons, List.not_mem_nil, or_false] at inPatterns
  rcases inPatterns with rfl | rfl | rfl | rfl | rfl | rfl
  · cases text with
    | nil => cases inPattern
    | cons char text =>
      rw [finds] at inPattern
      split at inPattern
      next mark =>
        rw [List.mem_singleton.mp inPattern]
        simp only [Bool.or_eq_true, beq_iff_eq] at mark
        rcases mark with rfl | rfl
        · exact .inl rfl
        · exact .inr (.inl rfl)
      next => cases inPattern
  · exact .inr (.inr (single (by decide) (fun here => mem_any.mpr ⟨_, by simp, here⟩) inPattern))
  · exact .inr (.inr (single (by decide) (fun here => mem_any.mpr ⟨_, by simp, here⟩) inPattern))
  · exact .inr (.inr (plural (by decide) (fun here => mem_any.mpr ⟨_, by simp, here⟩) inPattern))
  · exact .inr (.inr (plural (by decide) (fun here => mem_any.mpr ⟨_, by simp, here⟩) inPattern))
  · exact .inr (.inr (plural (by decide) (fun here => mem_any.mpr ⟨_, by simp, here⟩) inPattern))

/-- In front of a bare reference stands no introducing word but a colon, or one that is only the beginning
of a longer word. -/
theorem BareReference.introduction (bare : BareReference unicode reference) {found : Found}
    (member : found ∈ finds unicode.isWord introductionWord none (strip unicode reference)) :
    found.text = [':'] ∨ (found.text.flatMap unicode.lowerChar ∈ introductions.flatMap spellings ∧
      'Σ' ∉ found.text) ∧ found.rest.head?.any unicode.isWord = true := by
  have parts := finds_text member
  have noEquality : found.text ≠ ['='] := by
    intro same
    refine bare.noEquality (@mem_strip unicode _ _ ?_)
    rw [← parts, same]
    exact .head _
  rcases introductionWord_copula member with colon | equality | ⟨isCopula, ofWord⟩
  · exact .inl colon
  · exact absurd equality noEquality
  · have filled : found.text ≠ [] := finds_filled rfl member
    refine .inr ⟨?_, ?_⟩
    · rcases introductionWord_lower member with colon | equality | spelled
      · rw [colon] at ofWord
        have word := ofWord ':' (.head _)
        rw [unicode.asciiWord ':' (by decide)] at word
        exact absurd word (by decide)
      · exact absurd equality noEquality
      · exact spelled
    · by_contra apart
      have nothing : finds unicode.isWord announcingWord none (strip unicode reference) = [] :=
        finds_of_matchAt_none rfl (strip_wordless bare [] _ rfl)
      refine List.not_mem_nil (nothing ▸ mem_seq.mpr ⟨_, mem_boundary.mpr ⟨?_, rfl⟩, _, mem_seq.mpr
        ⟨found, List.mem_append_right _ isCopula, _, mem_boundary.mpr ⟨?_, rfl⟩, rfl⟩, rfl⟩)
      · obtain ⟨char, others, shape⟩ := List.exists_cons_of_ne_nil filled
        rw [← parts, shape, List.cons_append, List.head?_cons, Option.any_some,
          ofWord char (by rw [shape]; exact .head _)]
        exact Bool.false_ne_true
      · rw [lastOf_word filled ofWord]
        exact fun same => apart same.symm

end words

section presentations

variable {text core front back opened closed : List Char}

/-- What may be left at the end of a presentation without a dollar. -/
def closings : List (List Char) := [[], ['\\', ')'], [';'], [':']]

theorem closing_plain {kept : List Char} (isClosing : kept ∈ closings) :
    ∀ char ∈ kept, Plain unicode char := by
  have ascii : ∀ kept ∈ closings, ∀ char ∈ kept, char.toNat < 128 ∧ char.isAlpha = false := by decide
  intro char member
  obtain ⟨low, other⟩ := ascii kept isClosing char member
  exact .ascii low other

theorem Around.closing {gap kept : List Char} (blank : Blank unicode gap) (isClosing : kept ∈ closings)
    (quiet : Quiet front) (head : front.head? ≠ some '$' ∧ front.head? ≠ some '\\')
    (oneLine : '\n' ∉ front ∧ '\n' ∉ gap) : Around unicode front (gap ++ kept) := by
  have quietKept : Quiet kept := by
    simp only [closings, List.mem_cons, List.not_mem_nil, or_false] at isClosing
    rcases isClosing with rfl | rfl | rfl | rfl
    · exact .of_not_mem (by decide)
    · exact .parenthesis (by decide)
    · exact .of_not_mem (by decide)
    · exact .of_not_mem (by decide)
  have marks : ∀ kept ∈ closings, kept.head?.all (fun char => char.toNat < 128 ∧ char.isAlphanum = false ∧
      char ≠ '_') = true ∧ kept.getLast? ≠ some '$' ∧ '\n' ∉ kept := by decide
  obtain ⟨first, last, line⟩ := marks kept isClosing
  have slash : unicode.isSpace '\\' = false := visible_ascii _ (by decide) (by decide)
  have dollar : unicode.isSpace '$' = false := visible_ascii _ (by decide) (by decide)
  refine ⟨quiet, .append (.of_not_mem (blank.not_mem slash)) quietKept, ?_, head, ?_, oneLine.1, ?_⟩
  · cases gap with
    | cons char gap => exact (unicode.space char (blank char List.mem_cons_self)).1
    | nil =>
      rw [List.nil_append]
      cases kept with
      | nil => rfl
      | cons char kept =>
        obtain ⟨ascii, other, plain⟩ := of_decide_eq_true first
        rw [List.head?_cons, Option.any_some, unicode.asciiWord char ascii, other, Bool.false_or]
        exact beq_eq_false_iff_ne.mpr plain
  · rw [List.getLast?_append]
    cases final : kept.getLast? with
    | none => exact fun same => blank.not_mem dollar (List.mem_of_getLast? same)
    | some char =>
      rw [final] at last
      exact last
  · exact fun member => (List.mem_append.mp member).elim oneLine.2 line

/-- Where a presentation has the normal form of its answer, there are no colons and semicolons in it. -/
theorem IsAnswer.colons_absent (answer : IsAnswer unicode core) (around : Around unicode front back)
    (plain : ∀ char ∈ front, Plain unicode char) (plain' : ∀ char ∈ back, Plain unicode char)
    (opening : opened = [] ∨ opened = ['$']) (closing : closed = [] ∨ closed = ['$'])
    (parts : text = opened ++ (front ++ core ++ back) ++ closed) (stripped : Stripped unicode text)
    (oneLine : '\n' ∉ text) (same : canonical unicode core = canonical unicode text) :
    (∀ char ∈ front, char ≠ ':' ∧ char ≠ ';') ∧ ∀ char ∈ back, char ≠ ':' ∧ char ≠ ';' := by
  have line : '\n' ∉ core := fun member => oneLine (parts ▸ by simp [member])
  refine Scoring.colons_absent stripped answer.stripped ?_ same
  have lowered := lower_around (List.forall_mem_append.mpr ⟨dollar_plain opening, plain⟩)
    (List.forall_mem_append.mpr ⟨plain', dollar_plain closing⟩) core
  have whole := answer.unwrapped_around line around opening closing
  simp only [List.append_assoc] at parts lowered whole ⊢
  rw [parts, lowered, whole]

/-- A name in lower case is of small letters, apostrophes and hyphens. -/
theorem name_lower (named : ∀ char ∈ core, NameChar char) :
    'Σ' ∉ core ∧ ∀ char ∈ lower unicode core, char.isLower = true ∨ char = '\'' ∨ char = '-' := by
  have absent : 'Σ' ∉ core := by
    intro member
    rcases named 'Σ' member with alpha | same | same
    · exact absurd alpha (by decide)
    · cases same
    · cases same
  refine ⟨absent, fun char member => ?_⟩
  rw [lower_flatMap absent] at member
  obtain ⟨origin, inCore, lowered⟩ := List.mem_flatMap.mp member
  rcases named origin inCore with alpha | rfl | rfl
  · have code := isAlpha_code alpha
    rw [unicode.asciiLower origin (by omega), List.mem_singleton] at lowered
    rw [lowered]
    cases upper : origin.isUpper with
    | true => exact .inl (toLower_small upper)
    | false =>
      rw [Char.isAlpha, upper, Bool.false_or] at alpha
      rw [toLower_same upper]
      exact .inl alpha
  · rw [unicode.asciiLower _ (by decide), List.mem_singleton] at lowered
    exact .inr (.inl lowered)
  · rw [unicode.asciiLower _ (by decide), List.mem_singleton] at lowered
    exact .inr (.inr lowered)

/-- An answer that begins with the character of a word is put in lower case by itself, and becomes a text
that begins with a digit, or with a small letter and has no commands. -/
theorem IsAnswer.glued_shape (answer : IsAnswer unicode core) (oneLine : '\n' ∉ core)
    (begins : core.head?.any unicode.isWord = true) {word : List Char} (absent : 'Σ' ∉ word) :
    lower unicode (word ++ core) = word.flatMap unicode.lowerChar ++ lower unicode core ∧
      ∃ char rest, Scoring.unwrapped unicode (lower unicode core) = char :: rest ∧
        (unicode.isDecimal char = true ∨ char.isLower = true ∧
          ∀ char ∈ Scoring.unwrapped unicode (lower unicode core), char ∉ commandMarks) := by
  obtain ⟨first, head, opens⟩ := answer.head
  rw [head, Option.any_some] at begins
  have mark {mark : Char} (ascii : mark.toNat < 128) (other : (mark.isAlphanum || mark == '_') = false)
      (same : first = mark) : False := by
    rw [same, unicode.asciiWord mark ascii, other] at begins
    cases begins
  obtain ⟨others, rfl⟩ := List.head?_eq_some_iff.mp head
  rw [answer.unwrapped_alone oneLine]
  rcases opens with same | (same | same | same | decimal) | upper
  · exact (mark (by decide) (by decide) same).elim
  · exact (mark (by decide) (by decide) same).elim
  · exact (mark (by decide) (by decide) same).elim
  · exact (mark (by decide) (by decide) same).elim
  · have alone : lower unicode (first :: others) = first :: lower unicode others := lower_digit decimal [] others
    have quiet : Quiet [first] := .of_not_mem fun member =>
      decimal_apart decimal (by decide) (by decide) (List.mem_singleton.mp member).symm
    refine ⟨?_, ?_⟩
    · rw [lower_digit decimal, lower_flatMap absent, alone]
    · rw [alone]
      exact ⟨first, _, sub_spacing_front quiet none (lower unicode others), .inl decimal⟩
  · have name : TakenWhole unicode nameWord (first :: others) := by
      rcases answer with group | number | name
      · obtain rfl : first = '(' := Option.some.inj (group_ends group).1
        cases upper
      · obtain ⟨⟨char, same, opens⟩, -⟩ := number_ends number
        obtain rfl : first = char := Option.some.inj same
        rcases opens with rfl | rfl | rfl | decimal
        · cases upper
        · cases upper
        · cases upper
        · rw [alpha_not_decimal (by rw [Char.isAlpha, upper, Bool.true_or])] at decimal
          cases decimal
      · exact name
    obtain ⟨named, -, -⟩ := name_spec name
    obtain ⟨noSigma, small⟩ := @name_lower unicode _ named
    have unmarked : ∀ char ∈ lower unicode (first :: others), char ∉ commandMarks := by
      intro char member isMark
      have marks : ∀ mark ∈ commandMarks, mark.isLower = false ∧ mark ≠ '\'' ∧ mark ≠ '-' := by decide
      obtain ⟨other, plain, plain'⟩ := marks char isMark
      rcases small char member with lowered | same | same
      · rw [other] at lowered
        cases lowered
      · exact plain same
      · exact plain' same
    have kept : subAll unicode spacing (fun _ => []) (lower unicode (first :: others)) =
        lower unicode (first :: others) := by
      have quiet : Quiet (lower unicode (first :: others)) := .of_not_mem fun member =>
        unmarked '\\' member (by decide)
      have whole := @sub_spacing_front unicode _ quiet none []
      rw [List.append_nil] at whole
      exact whole.trans (List.append_nil _)
    refine ⟨?_, ?_⟩
    · rw [lower_flatMap noSigma, lower_flatMap, List.flatMap_append]
      exact fun member => (List.mem_append.mp member).elim absent noSigma
    · have code := @isAlpha_code first (by rw [Char.isAlpha, upper, Bool.true_or])
      have lowered : unicode.lowerChar first = [first.toLower] := unicode.asciiLower first (by omega)
      rw [kept]
      refine ⟨first.toLower, others.flatMap unicode.lowerChar, ?_, .inr ⟨toLower_small upper, unmarked⟩⟩
      rw [lower_flatMap noSigma, List.flatMap_cons, lowered]
      rfl

/-- An answer with an introducing word glued to it has another normal form. -/
theorem IsAnswer.glued (answer : IsAnswer unicode core) {word gap kept : List Char}
    (spelled : word.flatMap unicode.lowerChar ∈ introductions.flatMap spellings) (absent : 'Σ' ∉ word)
    (begins : core.head?.any unicode.isWord = true) (blank : Blank unicode gap)
    (isClosing : kept ∈ closings) (unpaired : kept ≠ ['\\', ')']) (closing : closed = [] ∨ closed = ['$'])
    (parts : text = word ++ core ++ (gap ++ kept) ++ closed) (stripped : Stripped unicode text)
    (oneLine : '\n' ∉ text) : canonical unicode core ≠ canonical unicode text := by
  intro same
  have line : '\n' ∉ core ∧ '\n' ∉ gap := by
    rw [parts] at oneLine
    simp only [List.mem_append, not_or] at oneLine
    exact ⟨oneLine.1.1.2, oneLine.1.2.1⟩
  obtain ⟨lowered, char, rest, shape, kind⟩ := answer.glued_shape line.1 begins absent
  obtain ⟨marks, -, first, -⟩ := spellings_spec _ spelled
  have ends : ∀ letter ∈ ['i', 'a', 'e', 'g', 'b', 'ı'], letter ≠ '$' ∧ letter ≠ '\\' := by decide
  have head : (word.flatMap unicode.lowerChar).head? ≠ some '$' ∧
      (word.flatMap unicode.lowerChar).head? ≠ some '\\' := by
    cases same : (word.flatMap unicode.lowerChar).head? with
    | none => exact ⟨nofun, nofun⟩
    | some letter =>
      rw [same] at first
      obtain ⟨dollar, slash⟩ := ends letter (by simpa using first)
      exact ⟨fun equal => dollar (Option.some.inj equal), fun equal => slash (Option.some.inj equal)⟩
  have quiet : Quiet (word.flatMap unicode.lowerChar) := .of_not_mem fun member =>
    (marks '\\' member).1 (by decide)
  have lineWord : '\n' ∉ word.flatMap unicode.lowerChar := by
    rw [← lower_flatMap absent]
    intro member
    refine oneLine ?_
    rw [parts]
    simp [mem_lower (by decide) (by decide) member]
  have around := Around.closing blank isClosing quiet head ⟨lineWord, line.2⟩
  have plain : ∀ char ∈ gap ++ kept ++ closed, Plain unicode char :=
    List.forall_mem_append.mpr
      ⟨List.forall_mem_append.mpr ⟨blank.plain, closing_plain isClosing⟩, dollar_plain closing⟩
  have unwrapped_eq : Scoring.unwrapped unicode (lower unicode text) =
      word.flatMap unicode.lowerChar ++ Scoring.unwrapped unicode (lower unicode core) ++ (gap ++ kept) := by
    have whole := answer.unwrapped_around line.1 around (.inl rfl) closing
    have around_eq := @lower_around unicode [] _ nofun plain (word ++ core)
    simp only [List.append_assoc, List.nil_append] at parts whole around_eq lowered ⊢
    rw [parts, around_eq, lowered, List.append_assoc, whole]
  -- a colon or semicolon at the end would show
  obtain ⟨-, noColon⟩ := Scoring.colons_absent stripped answer.stripped unwrapped_eq same
  have nothing : kept = [] := by
    simp only [closings, List.mem_cons, List.not_mem_nil, or_false] at isClosing
    rcases isClosing with rfl | rfl | rfl | rfl
    · rfl
    · exact absurd rfl unpaired
    · exact absurd rfl (noColon ';' (List.mem_append_right _ (.head _))).2
    · exact absurd rfl (noColon ':' (List.mem_append_right _ (.head _))).1
  refine integerSurface_glued spelled ⟨char, rest, shape, kind⟩ ?_
  have blanks := @canonicalNotation_blank unicode [] gap nofun blank
    (word.flatMap unicode.lowerChar ++ Scoring.unwrapped unicode (lower unicode core))
  rw [canonical, canonical, strip_stripped stripped, strip_stripped answer.stripped, unwrapped_eq, nothing,
    List.append_nil] at same
  rw [← blanks]
  exact same.symm

end presentations

section references

variable {reference before : List Char}

theorem BareReference.oneLine (bare : BareReference unicode reference) :
    '\n' ∉ strip unicode reference := by
  intro member
  have break_line := bare.singleLine '\n' (mem_strip member)
  exact absurd break_line (by decide)

/-- What trimming takes off the end of a bare reference is a dollar, a closing parenthesis of inline
mathematics, a colon or a semicolon, or nothing. -/
theorem BareReference.closing (bare : BareReference unicode reference)
    {word lead opening gap gap' mark : List Char}
    (trimmed : Trimmed unicode (strip unicode reference) word lead opening gap gap' mark)
    (noBracket : mark ≠ [']']) :
    ∃ kept closed, mark = kept ++ closed ∧ kept ∈ closings ∧ (closed = [] ∨ closed = ['$'] ∧ kept = []) := by
  rcases trimmed.mark with (rfl | rfl | rfl | ⟨char, rfl, dot⟩) | ⟨rfl, -⟩
  · exact ⟨[], ['$'], rfl, by decide, .inr ⟨rfl, rfl⟩⟩
  · exact ⟨['\\', ')'], [], rfl, by decide, .inl rfl⟩
  · exact absurd rfl noBracket
  · have goesOn : endsSentence char = false := by
      cases ends : endsSentence char with
      | false => rfl
      | true =>
        obtain ⟨next, head, -⟩ := strip_unpunctuated bare trimmed.parts ends
        cases head
    have kinds : ∀ char ∈ ['.', '?', '!', ';', ':'], endsSentence char = false → [char] ∈ closings := by
      decide
    exact ⟨[char], [], rfl, kinds char (List.contains_iff_mem.mp dot) goesOn, .inl rfl⟩
  · exact ⟨[], [], rfl, by decide, .inl rfl⟩

/-- A bare reference that has the normal form of the answer trimming leaves begins with no introducing
word. -/
theorem BareReference.unintroduced (bare : BareReference unicode reference)
    {core lead opening gap gap' kept closed : List Char} {found : Found}
    (member : found ∈ finds unicode.isWord introductionWord none (strip unicode reference))
    (parts : strip unicode reference =
      found.text ++ lead ++ opening ++ gap ++ core ++ gap' ++ (kept ++ closed))
    (answer : IsAnswer unicode core) (stripped : Stripped unicode (strip unicode reference))
    (blank : Blank unicode lead ∧ Blank unicode gap ∧ Blank unicode gap')
    (isOpening : opening = [] ∨ OpeningWrapper opening) (isClosing : kept ∈ closings)
    (closing : closed = [] ∨ closed = ['$'] ∧ kept = [])
    (pair : opening = ['\\', '('] ↔ kept ++ closed = ['\\', ')']) :
    canonical unicode core ≠ canonical unicode (strip unicode reference) := by
  intro same
  have oneLine := bare.oneLine
  have closing' : closed = [] ∨ closed = ['$'] := closing.imp_right And.left
  have lines : '\n' ∉ lead ∧ '\n' ∉ opening ∧ '\n' ∉ gap ∧ '\n' ∉ gap' := by
    rw [parts] at oneLine
    simp only [List.mem_append, not_or] at oneLine
    obtain ⟨⟨⟨⟨⟨⟨-, lineLead⟩, lineOpening⟩, lineGap⟩, -⟩, lineGap'⟩, -⟩ := oneLine
    exact ⟨lineLead, lineOpening, lineGap, lineGap'⟩
  rcases bare.introduction member with colon | ⟨⟨spelled, absent⟩, glued⟩
  · -- a colon at the beginning would show
    have opened : Quiet opening ∧ ∀ char ∈ opening, Plain unicode char := by
      rcases isOpening with rfl | rfl | rfl
      · exact ⟨.of_not_mem nofun, nofun⟩
      · exact ⟨.of_not_mem (by decide), List.forall_mem_singleton.mpr (.ascii (by decide) (by decide))⟩
      · exact ⟨.parenthesis (by decide), List.forall_mem_cons.mpr ⟨.ascii (by decide) (by decide),
          List.forall_mem_singleton.mpr (.ascii (by decide) (by decide))⟩⟩
    have slash : unicode.isSpace '\\' = false := visible_ascii _ (by decide) (by decide)
    have around : Around unicode (':' :: (lead ++ (opening ++ gap))) (gap' ++ kept) := by
      refine .closing blank.2.2 isClosing ?_ ⟨by simp, by simp⟩ ⟨by simp [lines], lines.2.2.2⟩
      have colonQuiet : Quiet [':'] := .of_not_mem (by decide)
      exact colonQuiet.append ((Quiet.of_not_mem (blank.1.not_mem slash)).append
        (opened.1.append (.of_not_mem (blank.2.1.not_mem slash))))
    have plain : ∀ char ∈ ':' :: (lead ++ (opening ++ gap)), Plain unicode char :=
      List.forall_mem_cons.mpr ⟨.ascii (by decide) (by decide), List.forall_mem_append.mpr
        ⟨blank.1.plain, List.forall_mem_append.mpr ⟨opened.2, blank.2.1.plain⟩⟩⟩
    have plain' : ∀ char ∈ gap' ++ kept, Plain unicode char :=
      List.forall_mem_append.mpr ⟨blank.2.2.plain, closing_plain isClosing⟩
    have shape : strip unicode reference =
        [] ++ (':' :: (lead ++ (opening ++ gap)) ++ core ++ (gap' ++ kept)) ++ closed := by
      rw [parts, colon]
      simp only [List.append_assoc, List.nil_append, List.cons_append]
    obtain ⟨noColon, -⟩ := answer.colons_absent around plain plain' (.inl rfl) closing' shape stripped oneLine
      same
    exact (noColon ':' (.head _)).1 rfl
  · -- a word is glued to the answer
    have rest : found.rest = lead ++ opening ++ gap ++ core ++ gap' ++ (kept ++ closed) := by
      have whole := (finds_text member).trans parts
      simp only [List.append_assoc] at whole ⊢
      exact List.append_cancel_left whole
    rw [rest] at glued
    have noLead : lead = [] := by
      cases lead with
      | nil => rfl
      | cons char lead =>
        have word : unicode.isWord char = true := glued
        rw [(unicode.space char (blank.1 char List.mem_cons_self)).1] at word
        cases word
    subst noLead
    have noOpening : opening = [] := by
      rcases isOpening with rfl | rfl | rfl
      · rfl
      · have word : unicode.isWord '$' = true := glued
        rw [unicode.asciiWord '$' (by decide)] at word
        exact absurd word (by decide)
      · have word : unicode.isWord '\\' = true := glued
        rw [unicode.asciiWord '\\' (by decide)] at word
        exact absurd word (by decide)
    subst noOpening
    have noGap : gap = [] := by
      cases gap with
      | nil => rfl
      | cons char gap =>
        have word : unicode.isWord char = true := glued
        rw [(unicode.space char (blank.2.1 char List.mem_cons_self)).1] at word
        cases word
    subst noGap
    have begins : core.head?.any unicode.isWord = true := by
      rwa [List.nil_append, List.nil_append, List.nil_append, List.append_assoc,
        List.head?_append_of_ne_nil _ answer.filled] at glued
    have unpaired : kept ≠ ['\\', ')'] := by
      intro taken
      rcases closing with rfl | ⟨-, nothing⟩
      · have opened := pair.mpr (by rw [taken]; rfl)
        cases opened
      · rw [nothing] at taken
        cases taken
    refine answer.glued spelled absent begins blank.2.2 isClosing unpaired closing' ?_ stripped oneLine same
    rw [parts]
    simp only [List.append_assoc, List.append_nil]

/-- A bare reference that has the normal form of the answer trimming leaves is that answer up to a
presentation. -/
theorem BareReference.whole (bare : BareReference unicode reference)
    (answer : IsAnswer unicode (trimMathTail unicode (strip unicode reference)))
    (same : canonical unicode (trimMathTail unicode (strip unicode reference)) =
      canonical unicode (strip unicode reference)) :
    ∃ front core back, WholeAnswer unicode (strip unicode reference) front core back := by
  obtain ⟨-, -, -, -, -, stripped⟩ := strip_spec unicode reference
  have oneLine := bare.oneLine
  obtain ⟨left, word, lead, opening, gap, gap', mark, trimmed⟩ := trimMathTail_spec stripped oneLine
  obtain ⟨noBracket, pair⟩ := trimmed.paired stripped left same
  obtain ⟨kept, closed, rfl, isClosing, closing⟩ := bare.closing trimmed noBracket
  have closing' : closed = [] ∨ closed = ['$'] := closing.imp_right And.left
  have parts := trimmed.parts
  have blank := trimmed.lead
  have blankGap := trimmed.gap
  have blankGap' := trimmed.gap'
  have isOpening := trimmed.opening
  have unmarked : kept ++ closed = [] →
      ∀ final, EndMark final → ¬ final <:+ trimMathTail unicode (strip unicode reference) := by
    intro nothing
    rcases trimmed.mark with isMark | ⟨-, unmarked⟩
    · exact absurd nothing isMark.filled
    · exact unmarked
  obtain ⟨rfl, unintroduced⟩ : word = [] ∧
      finds unicode.isWord introductionWord none (strip unicode reference) = [] := by
    rcases trimmed.word with ⟨rfl, nothing⟩ | ⟨found, member, rfl⟩
    · exact ⟨rfl, nothing⟩
    · exact absurd same (bare.unintroduced member parts answer stripped ⟨blank, blankGap, blankGap'⟩
        isOpening isClosing closing pair)
  clear trimmed
  generalize trimMathTail unicode (strip unicode reference) = core at *
  generalize strip unicode reference = text at *
  have noLead : lead = [] := by
    rw [parts] at stripped
    simp only [List.append_assoc, List.nil_append] at stripped
    exact stripped.no_lead blank
  subst noLead
  simp only [List.nil_append] at parts
  -- in front of what stands behind the answer there is no word
  have introduced (back : List Char) (apart : back.head?.any unicode.isWord = false)
      (whole : text = core ++ back) : finds unicode.isWord introductionWord none core = [] := by
    have extended := @finds_append unicode.isWord introductionWord rfl back apart none core
    rw [← whole, unintroduced, List.filter_nil] at extended
    exact List.map_eq_nil_iff.mp extended.symm
  by_cases inlined : opening = ['\\', '(']
  · have taken := pair.mp inlined
    refine ⟨opening ++ gap, core, gap' ++ (kept ++ closed), ?_, ?_, answer, ?_, ?_⟩
    · rw [parts]
      simp only [List.append_assoc]
    · exact .inr ⟨gap, gap', blankGap, blankGap', by rw [inlined], by rw [taken]⟩
    · intro nothing
      rw [inlined] at nothing
      cases nothing
    · intro nothing
      rw [taken] at nothing
      cases List.append_eq_nil_iff.mp nothing |>.2
  · have opened : opening = [] ∨ opening = ['$'] := by
      rcases isOpening with nothing | dollar | other
      · exact .inl nothing
      · exact .inr dollar
      · exact absurd other inlined
    have nothing : kept = [] := by
      have slash : unicode.isSpace '\\' = false := visible_ascii _ (by decide) (by decide)
      have dollar : unicode.isSpace '$' = false := visible_ascii _ (by decide) (by decide)
      have lines : '\n' ∉ gap ∧ '\n' ∉ gap' := by
        rw [parts] at oneLine
        simp only [List.mem_append, not_or] at oneLine
        obtain ⟨⟨⟨⟨-, lineGap⟩, -⟩, lineGap'⟩, -⟩ := oneLine
        exact ⟨lineGap, lineGap'⟩
      have around : Around unicode gap (gap' ++ kept) := .closing blankGap' isClosing
        (.of_not_mem (blankGap.not_mem slash))
        ⟨fun head => blankGap.not_mem dollar (List.mem_of_mem_head? head),
          fun head => blankGap.not_mem slash (List.mem_of_mem_head? head)⟩ lines
      have plain : ∀ char ∈ gap' ++ kept, Plain unicode char :=
        List.forall_mem_append.mpr ⟨blankGap'.plain, closing_plain isClosing⟩
      have shape : text = opening ++ (gap ++ core ++ (gap' ++ kept)) ++ closed := by
        rw [parts]
        simp only [List.append_assoc]
      obtain ⟨-, noColon⟩ := answer.colons_absent around blankGap.plain plain opened closing' shape stripped
        oneLine same
      have kinds := isClosing
      simp only [closings, List.mem_cons, List.not_mem_nil, or_false] at kinds
      rcases kinds with rfl | rfl | rfl | rfl
      · rfl
      · rcases closing with rfl | ⟨-, nothing⟩
        · exact absurd (pair.mpr rfl) inlined
        · exact nothing
      · exact absurd rfl (noColon ';' (List.mem_append_right _ (.head _))).2
      · exact absurd rfl (noColon ':' (List.mem_append_right _ (.head _))).1
    subst nothing
    rw [List.nil_append] at parts unmarked
    have noGap : opening = [] → gap = [] := by
      rintro rfl
      rw [parts] at stripped
      simp only [List.append_assoc, List.nil_append] at stripped
      exact stripped.no_lead blankGap
    have noGap' : closed = [] → gap' = [] := by
      rintro rfl
      rw [parts, List.append_nil] at stripped
      exact stripped.no_tail blankGap'
    refine ⟨opening ++ gap, core, gap' ++ closed, ?_, .inl ⟨?_, ?_⟩, answer, ?_, ?_⟩
    · rw [parts]
      simp only [List.append_assoc]
    · rcases opened with rfl | rfl
      · exact .inl (noGap rfl)
      · exact .inr ⟨gap, blankGap, rfl⟩
    · rcases closing' with rfl | rfl
      · exact .inl (by rw [noGap' rfl, List.append_nil])
      · exact .inr ⟨gap', blankGap', rfl⟩
    · intro bare
      obtain ⟨rfl, rfl⟩ := List.append_eq_nil_iff.mp bare
      refine introduced (gap' ++ closed) ?_ (by rw [parts]; simp only [List.append_assoc, List.nil_append])
      rcases closing' with rfl | rfl
      · rw [noGap' rfl]
        rfl
      · have dollar : unicode.isWord '$' = false := by
          rw [unicode.asciiWord '$' (by decide)]
          decide
        cases gap' with
        | nil => exact dollar
        | cons char gap' => exact (unicode.space char (blankGap' char List.mem_cons_self)).1
    · intro bare
      exact unmarked (List.append_eq_nil_iff.mp bare).2 _ (.inr (.inl rfl))

/-- A boxed prediction is normalised to the normal form of what it boxes. -/
theorem normalizeMathAnswer_boxed (bare : BareReference unicode reference) (once : ¬ boxed <:+: before)
    (defined : (normalizeMathAnswer unicode (.text (boxedEnd before reference))).isSome) :
    normalizeMathAnswer unicode (.text (boxedEnd before reference)) =
      some (canonical unicode (strip unicode reference)) := by
  obtain ⟨-, -, -, -, -, stripped⟩ := strip_spec unicode reference
  have same : canonical unicode reference = canonical unicode (strip unicode reference) := by
    rw [canonical, canonical, strip_stripped stripped]
  rw [normalizeMathAnswer, asText, Option.bind_some, extractMathAnswer_boxed bare.even bare.unboxed once,
    Option.bind_some, same] at defined ⊢
  dsimp only at defined ⊢
  split at defined
  · cases defined
  next filled => exact if_neg filled

/-- A bare reference has the normal form of its boxed prediction exactly if it is an answer as a whole up to
a presentation. -/
theorem BareReference.normalizeMathAnswer_eq (bare : BareReference unicode reference)
    (once : ¬ boxed <:+: before)
    (defined : (normalizeMathAnswer unicode (.text (boxedEnd before reference))).isSome) :
    normalizeMathAnswer unicode (.text reference) =
      normalizeMathAnswer unicode (.text (boxedEnd before reference)) ↔
        ∃ front core back, WholeAnswer unicode (strip unicode reference) front core back := by
  obtain ⟨-, -, -, -, -, stripped⟩ := strip_spec unicode reference
  obtain ⟨left, -⟩ := trimMathTail_spec stripped bare.oneLine
  have predicted := normalizeMathAnswer_boxed bare once defined
  have extracted := extractMathAnswer_bare bare
  rw [predicted, normalizeMathAnswer, asText, Option.bind_some, extracted]
  dsimp only
  constructor
  · intro same
    split at same
    next surface =>
      rw [Option.bind_some] at same
      split at same
      · cases same
      · exact bare.whole ((candidateSurface_whole left).mp surface) (Option.some.inj same)
    next => cases same
  · rintro ⟨front, core, back, whole⟩
    have trimmed := whole.trim stripped bare.oneLine
    have same := whole.canonical stripped bare.oneLine
    have filled : canonical unicode core ≠ [] := by
      rw [← same]
      intro nothing
      rw [normalizeMathAnswer, asText, Option.bind_some,
        extractMathAnswer_boxed bare.even bare.unboxed once, Option.bind_some, if_pos] at predicted
      · cases predicted
      · rw [canonical, strip_stripped stripped] at nothing
        exact nothing
    rw [trimmed, if_pos ((candidateSurface_whole whole.answer.stripped).mpr whole.answer), Option.bind_some,
      if_neg filled, same]

/-- A prediction with a normal form is counted correct exactly if the reference has it too. -/
theorem countMathRecord_correct {counts : MathCounts} {content : List Char} {prediction : FieldValue}
    (defined : (normalizeMathAnswer unicode prediction).isSome) :
    (countMathRecord unicode counts ⟨.text content, prediction⟩).correct = counts.correct + 1 ↔
      normalizeMathAnswer unicode (.text content) = normalizeMathAnswer unicode prediction := by
  obtain ⟨predicted, here⟩ := Option.isSome_iff_exists.mp defined
  rw [countMathRecord, here]
  dsimp only
  split
  next same => exact iff_of_true rfl same
  next differs => exact iff_of_false (Nat.ne_of_lt (Nat.lt_succ_self _)) differs

/-- A boxed prediction of a bare reference is counted correct, and the normal forms of both are the same,
exactly if the reference is an answer as a whole up to a presentation. -/
theorem boxed_reference_correct_iff (unicode : Unicode) (counts : MathCounts)
    (bare : BareReference unicode reference) (once : ¬ boxed <:+: before)
    (defined : (normalizeMathAnswer unicode (.text (boxedEnd before reference))).isSome) :
    ((countMathRecord unicode counts ⟨.text reference, .text (boxedEnd before reference)⟩).correct =
        counts.correct + 1 ↔
      ∃ front core back, WholeAnswer unicode (strip unicode reference) front core back) ∧
    (normalizeMathAnswer unicode (.text reference) =
        normalizeMathAnswer unicode (.text (boxedEnd before reference)) ↔
      ∃ front core back, WholeAnswer unicode (strip unicode reference) front core back) :=
  ⟨(countMathRecord_correct defined).trans (bare.normalizeMathAnswer_eq once defined),
    bare.normalizeMathAnswer_eq once defined⟩

end references

section examples

/-- Tables that know the character set and the few characters besides that the patterns name. -/
def asciiTables : Unicode where
  isSpace char := [9, 10, 11, 12, 13, 28, 29, 30, 31, 32].contains char.toNat
  isDecimal := Char.isDigit
  isWord char := char.isAlphanum || ['_', 'ſ', 'ı', 'İ', '\u212a'].contains char
  isCased := Char.isAlpha
  isCaseIgnorable char := ['\'', '.', ':', '^', '`'].contains char
  lowerChar char :=
    if char = 'İ' then ['i', '\u0307'] else if char = '\u212a' then ['k'] else [char.toLower]
  decimalValue char := char.toNat - '0'.toNat
  asciiSpace _ _ := rfl
  asciiDecimal _ _ := rfl
  asciiWord char ascii := by
    have others : ∀ other ∈ ['ſ', 'ı', 'İ', '\u212a'], 128 ≤ other.toNat := by decide
    have apart : ['ſ', 'ı', 'İ', '\u212a'].contains char = false := by
      rw [← Bool.not_eq_true, List.contains_iff_mem]
      exact fun member => absurd ascii (Nat.not_lt.mpr (others char member))
    rw [List.contains_cons, apart, Bool.or_false]
  asciiCased _ _ := rfl
  asciiLower char ascii := by
    rw [if_neg, if_neg]
    · rintro rfl
      exact absurd ascii (by decide)
    · rintro rfl
      exact absurd ascii (by decide)
  space char spaced := by
    have kinds : ∀ code ∈ [9, 10, 11, 12, 13, 28, 29, 30, 31, 32],
        ((Char.ofNat code).isAlphanum || ['_', 'ſ', 'ı', 'İ', '\u212a'].contains (Char.ofNat code)) = false ∧
          (Char.ofNat code).isAlpha = false ∧
            (if Char.ofNat code = 'İ' then ['i', '\u0307'] else if Char.ofNat code = '\u212a' then ['k']
              else [(Char.ofNat code).toLower]) = [Char.ofNat code] := by decide
    have listed := kinds char.toNat (List.contains_iff_mem.mp spaced)
    rwa [Char.ofNat_toNat] at listed
  decimal char digit := by
    have code := isDigit_code digit
    have kinds : ∀ code ∈ [48, 49, 50, 51, 52, 53, 54, 55, 56, 57],
        ((Char.ofNat code).isAlphanum || ['_', 'ſ', 'ı', 'İ', '\u212a'].contains (Char.ofNat code)) = true ∧
          (Char.ofNat code).isAlpha = false ∧
            ['\'', '.', ':', '^', '`'].contains (Char.ofNat code) = false ∧
            (if Char.ofNat code = 'İ' then ['i', '\u0307'] else if Char.ofNat code = '\u212a' then ['k']
              else [(Char.ofNat code).toLower]) = [Char.ofNat code] := by decide
    have listed := kinds char.toNat (by simp only [List.mem_cons, List.not_mem_nil, or_false]; omega)
    rwa [Char.ofNat_toNat] at listed
  lowered char other high member ascii := by
    split at member
    · simp only [List.mem_cons, List.not_mem_nil, or_false] at member
      rcases member with rfl | rfl
      · decide
      · exact absurd ascii (by decide)
    · split at member
      · rw [List.mem_singleton.mp member]
        decide
      · have upper : char.isUpper = false := by
          cases upper : char.isUpper with
          | false => rfl
          | true =>
            have code := @isAlpha_code char (by rw [Char.isAlpha, upper, Bool.true_or])
            omega
        rw [List.mem_singleton.mp member, toLower_same upper] at ascii
        exact absurd ascii (Nat.not_lt.mpr high)
  symbols := by decide
  degrees := by decide
  longS := by decide
  dotlessI := by decide
  dottedI := by decide
  kelvin := by decide

/-- A pair of a digit and a fraction, in dollars. -/
def pairReference : List Char :=
  ['$', '(', '1', ',', ' ', '\\', 'f', 'r', 'a', 'c', '{', '2', '}', '{', '3', '}', ')', '$']

theorem pairReference_bare : BareReference asciiTables pairReference where
  singleLine := by decide
  even := by decide
  unboxed := by decide
  noEquality := by decide
  unpunctuated front char rest parts mark := by
    have absent : ∀ char ∈ pairReference, endsSentence char = false := by decide
    rw [absent char (parts ▸ List.mem_append_right _ List.mem_cons_self)] at mark
    cases mark
  wordless := by decide

theorem pairReference_whole : WholeAnswer asciiTables (strip asciiTables pairReference) ['$']
    ['(', '1', ',', ' ', '\\', 'f', 'r', 'a', 'c', '{', '2', '}', '{', '3', '}', ')'] ['$'] where
  parts := by decide
  wrapping := .inl ⟨.inr ⟨[], nofun, rfl⟩, .inr ⟨[], nofun, rfl⟩⟩
  answer := .inl (by decide)
  unintroduced := nofun
  unmarked := nofun

/-- The boxed pair is counted correct for the pair, with words in front of the box. -/
theorem boxed_reference_correct_pair :
    (countMathRecord asciiTables ⟨0, 0, 0⟩ ⟨.text pairReference,
      .text (boxedEnd ['S', 'o', ' ', 'i', 't', ' ', 'i', 's', ' '] pairReference)⟩).correct = 1 :=
  (boxed_reference_correct_iff asciiTables ⟨0, 0, 0⟩ pairReference_bare (by decide) (by decide)).1.mpr
    ⟨_, _, _, pairReference_whole⟩

/-- A root of its own is a bare reference for which its boxed prediction, which has a normal form, is not
counted correct: the reference by itself has none. -/
theorem boxed_radical_rejected :
    BareReference asciiTables ['\\', 's', 'q', 'r', 't', '{', '2', '}'] ∧
      (normalizeMathAnswer asciiTables
        (.text (boxedEnd [] ['\\', 's', 'q', 'r', 't', '{', '2', '}']))).isSome ∧
      normalizeMathAnswer asciiTables (.text ['\\', 's', 'q', 'r', 't', '{', '2', '}']) = none ∧
      (countMathRecord asciiTables ⟨0, 0, 0⟩ ⟨.text ['\\', 's', 'q', 'r', 't', '{', '2', '}'],
        .text (boxedEnd [] ['\\', 's', 'q', 'r', 't', '{', '2', '}'])⟩).correct = 0 := by
  refine ⟨⟨by decide, rfl, by decide, by decide, ?_, by decide⟩, by decide, by decide, by decide⟩
  intro front char rest parts mark
  have absent : ∀ char ∈ ['\\', 's', 'q', 'r', 't', '{', '2', '}'], endsSentence char = false := by decide
  rw [absent char (parts ▸ List.mem_append_right _ List.mem_cons_self)] at mark
  cases mark

end examples

end SpecBlock.Scoring
