import SpecBlock.Scoring.MathTrimming

/-!
# What normalisation does to the text around an answer

Spaces around an answer vanish. Brackets, colons and semicolons do not, apart from a pair of inline
parentheses and the marks of spacing commands: each stage keeps their weight. So text around an answer
that has some of them changes the normal form.
-/

namespace SpecBlock.Scoring

open Regex

variable {unicode : Unicode}

section lower

/-- Characters that have no case and leave it alone. -/
def Plain (unicode : Unicode) (char : Char) : Prop :=
  unicode.lowerChar char = [char] ∧ unicode.isCased char = false ∧ char ≠ 'Σ'

/-- Whether the nearest character that counts is cased. -/
def nearCased (unicode : Unicode) (text : List Char) : Bool :=
  (text.dropWhile unicode.isCaseIgnorable).head?.any unicode.isCased

theorem nearCased_append {near far : List Char}
    (plain : ∀ char ∈ far, unicode.isCased char = false) :
    nearCased unicode (near ++ far) = nearCased unicode near := by
  induction near with
  | nil =>
    cases shape : far.dropWhile unicode.isCaseIgnorable with
    | nil => rw [List.nil_append, nearCased, shape]; rfl
    | cons char others =>
      have member : char ∈ far := (List.dropWhile_suffix _).subset (shape ▸ List.mem_cons_self)
      rw [List.nil_append, nearCased, shape]
      exact plain char member
  | cons char near ih =>
    rw [nearCased, nearCased, List.cons_append]
    cases ignored : unicode.isCaseIgnorable char with
    | true =>
      rw [List.dropWhile_cons_of_pos ignored, List.dropWhile_cons_of_pos ignored]
      exact ih
    | false =>
      rw [List.dropWhile_cons_of_neg (Bool.eq_false_iff.mp ignored),
        List.dropWhile_cons_of_neg (Bool.eq_false_iff.mp ignored)]
      rfl

theorem nearCased_digit {digit : Char} (decimal : unicode.isDecimal digit = true)
    (near far : List Char) : nearCased unicode (near ++ digit :: far) = nearCased unicode near := by
  obtain ⟨-, uncased, counts, -⟩ := unicode.decimal digit decimal
  induction near with
  | nil =>
    rw [List.nil_append, nearCased, List.dropWhile_cons_of_neg (Bool.eq_false_iff.mp counts)]
    exact uncased
  | cons char near ih =>
    rw [nearCased, nearCased, List.cons_append]
    cases ignored : unicode.isCaseIgnorable char with
    | true =>
      rw [List.dropWhile_cons_of_pos ignored, List.dropWhile_cons_of_pos ignored]
      exact ih
    | false =>
      rw [List.dropWhile_cons_of_neg (Bool.eq_false_iff.mp ignored),
        List.dropWhile_cons_of_neg (Bool.eq_false_iff.mp ignored)]
      rfl

/-- Whether a sigma ends a word depends on the nearest characters that count. -/
theorem finalSigma_eq (before after : List Char) :
    finalSigma unicode before after = (nearCased unicode before && !nearCased unicode after) := rfl

/-- Lower case depends on what stands in front only by the nearest character that counts. -/
theorem lowerBehind_congr {before before' : List Char}
    (same : ∀ near, nearCased unicode (near ++ before) = nearCased unicode (near ++ before'))
    (text : List Char) : lowerBehind unicode before text = lowerBehind unicode before' text := by
  induction text generalizing before before' with
  | nil => rfl
  | cons char text ih =>
    have here : nearCased unicode before = nearCased unicode before' := same []
    rw [lowerBehind, lowerBehind, finalSigma_eq, finalSigma_eq, here,
      ih fun near => by simpa using same (near ++ [char])]

theorem lowerBehind_plain {front : List Char} (plain : ∀ char ∈ front, Plain unicode char)
    (before text : List Char) :
    lowerBehind unicode before (front ++ text) =
      front ++ lowerBehind unicode (front.reverse ++ before) text := by
  induction front generalizing before with
  | nil => rfl
  | cons char front ih =>
    obtain ⟨⟨lowered, -, other⟩, others⟩ := List.forall_mem_cons.mp plain
    rw [List.cons_append, lowerBehind, if_neg other, lowered, ih others,
      List.reverse_cons, List.append_assoc]
    rfl

/-- Plain text around a text stays in lower case, and leaves it alone. -/
theorem lower_around {front back : List Char} (plain : ∀ char ∈ front, Plain unicode char)
    (plain' : ∀ char ∈ back, Plain unicode char) (text : List Char) :
    lower unicode (front ++ text ++ back) = front ++ lower unicode text ++ back := by
  have behind (before : List Char) :
      lowerBehind unicode before (text ++ back) = lowerBehind unicode before text ++ back := by
    induction text generalizing before with
    | nil =>
      have whole := lowerBehind_plain plain' before []
      rw [List.append_nil] at whole
      exact whole.trans (List.append_nil _)
    | cons char text ih =>
      rw [List.cons_append, lowerBehind, lowerBehind, ih, finalSigma_eq, finalSigma_eq,
        nearCased_append fun char member => (plain' char member).2.1, List.append_assoc]
  rw [lower, List.append_assoc, lowerBehind_plain plain, behind, List.append_assoc, lower]
  refine congrArg (fun lowered => front ++ (lowered ++ back)) (lowerBehind_congr (fun near => ?_) text)
  rw [List.append_nil, List.append_nil]
  exact nearCased_append fun char member => (plain char (List.mem_reverse.mp member)).2.1

theorem lower_digit {digit : Char} (decimal : unicode.isDecimal digit = true) (front back : List Char) :
    lower unicode (front ++ digit :: back) =
      lower unicode front ++ digit :: lower unicode back := by
  have lowered := (unicode.decimal digit decimal).2.2.2
  have other : digit ≠ 'Σ' := by
    rintro rfl
    rw [(unicode.symbols 'Σ' (by decide)).2] at decimal
    cases decimal
  have behind (before : List Char) : lowerBehind unicode before (front ++ digit :: back) =
      lowerBehind unicode before front ++ digit :: lowerBehind unicode [] back := by
    induction front generalizing before with
    | nil =>
      rw [List.nil_append, lowerBehind, lowerBehind, if_neg other, lowered]
      refine congrArg (digit :: ·) (lowerBehind_congr (fun near => ?_) back)
      rw [nearCased_digit decimal, List.append_nil]
    | cons char front ih =>
      rw [List.cons_append, lowerBehind, lowerBehind, ih, finalSigma_eq, finalSigma_eq,
        nearCased_digit decimal, List.append_assoc]
  exact behind []

/-- Without sigma each character is put in lower case by itself. -/
theorem lower_flatMap {text : List Char} (absent : 'Σ' ∉ text) :
    lower unicode text = text.flatMap unicode.lowerChar := by
  have behind (before : List Char) : lowerBehind unicode before text =
      text.flatMap unicode.lowerChar := by
    induction text generalizing before with
    | nil => rfl
    | cons char text ih =>
      rw [List.mem_cons, not_or] at absent
      obtain ⟨other, others⟩ := absent
      rw [lowerBehind, if_neg (Ne.symm other), ih others, List.flatMap_cons]
  exact behind []

end lower

section weights

/-- A weight that only brackets, colons and semicolons have, and that a pair of parentheses has not. -/
structure Marked (weight : Char → Int) : Prop where
  light : ∀ char, char ∉ ['(', ')', '[', ']', ':', ';'] → weight char = 0
  pair : weight '(' + weight ')' = 0

variable {weight : Char → Int}

theorem sub_weight_constant {pattern : Regex} (light : pattern.Weightless weight)
    (ungrouped : pattern.groupNumbers.all (· = []) = true) {replaced : List Char}
    (nothing : weigh weight replaced = 0) (text : List Char) :
    weigh weight (subAll unicode pattern (fun _ => replaced) text) = weigh weight text := by
  refine sub_weight fun last text found member => ?_
  have numbers := of_decide_eq_true (List.all_eq_true.mp ungrouped _ (finds_groups member))
  rw [finds_weight light member, List.map_eq_nil_iff.mp numbers, nothing]
  rfl

/-- A pattern with one group that takes nothing of weight outside of it. -/
theorem sub_weight_group {pattern : Regex} (light : pattern.Weightless weight)
    (grouped : pattern.groupNumbers.all (· = [1]) = true) {replacement : List Char → List Char}
    (same : ∀ text, weigh weight (replacement text) = weigh weight text) (text : List Char) :
    weigh weight (subAll unicode pattern (fun group => replacement (group 1)) text) =
      weigh weight text := by
  refine sub_weight fun last text found member => ?_
  have numbers := of_decide_eq_true (List.all_eq_true.mp grouped _ (finds_groups member))
  obtain ⟨⟨number, content⟩, shape, rfl⟩ := List.map_eq_singleton_iff.mp numbers
  rw [finds_weight light member, Found.group, shape, same]
  exact (add_zero _).symm

theorem weigh_rootOf (marked : Marked weight) (text : List Char) :
    weigh weight (rootOf text) = weigh weight text := by
  have letters : weigh weight ['s', 'q', 'r', 't', '('] = weight '(' := by
    simp [weigh, marked.light]
  rw [rootOf, weigh_append, weigh_append, letters]
  have closing : weigh weight [')'] = weight ')' := add_zero _
  rw [closing]
  have pair := marked.pair
  omega

theorem space_light (marked : Marked weight) {char : Char} (space : unicode.isSpace char = true) :
    weight char = 0 := by
  refine marked.light char fun member => ?_
  simp only [List.mem_cons, List.not_mem_nil, or_false] at member
  rcases member with rfl | rfl | rfl | rfl | rfl | rfl <;>
    (rw [visible_ascii _ (by decide) (by decide)] at space; cases space)

theorem fractionCommand_weight (marked : Marked weight) (text : List Char) :
    weigh weight (subAll unicode fractionCommand (fun group => group 1 ++ ['/'] ++ group 2) text) =
      weigh weight text := by
  have light : fractionCommand.Weightless weight := by
    simp [fractionCommand, row, lit, opt, Weightless, marked.light]
  refine sub_weight fun last text found member => ?_
  have numbers : found.groups.map Prod.fst = [1, 2] := by
    have among := finds_groups member
    simpa [fractionCommand, row, lit, opt, groupNumbers] using among
  obtain ⟨⟨number, first⟩, others, shape, rfl, rest⟩ := List.map_eq_cons_iff.mp numbers
  obtain ⟨⟨number, second⟩, rfl, rfl⟩ := List.map_eq_singleton_iff.mp rest
  rw [finds_weight light member, Found.group, Found.group, shape]
  simp [weigh_append, weigh_cons, weighGroups, List.lookup, marked.light]

/-- A root sign weighs as much as what it stands in front of. -/
theorem rootSign_weight (marked : Marked weight) (text : List Char) :
    weigh weight (subAll unicode (rootSign unicode)
      (fun group => rootOf (if group 1 = [] then group 2 else group 1)) text) = weigh weight text := by
  have light : (rootSign unicode).Weightless weight := by
    simp [rootSign, row, lit, any, spaces, Weightless, marked.light]
    exact fun char space => space_light marked space
  refine sub_weight fun last text found member => ?_
  have numbers : found.groups.map Prod.fst = [1] ∨ found.groups.map Prod.fst = [2] := by
    have among := finds_groups member
    simpa [rootSign, row, lit, any, spaces, groupNumbers] using among
  rw [finds_weight light member, weigh_rootOf marked, Found.group, Found.group]
  rcases numbers with numbers | numbers
  · obtain ⟨⟨number, content⟩, shape, rfl⟩ := List.map_eq_singleton_iff.mp numbers
    rw [shape]
    by_cases empty : content = []
    · simp [List.lookup, weighGroups, weigh, empty]
    · simp [List.lookup, weighGroups, empty]
  · obtain ⟨⟨number, content⟩, shape, rfl⟩ := List.map_eq_singleton_iff.mp numbers
    rw [shape]
    simp [List.lookup, weighGroups]

/-- The canonical notation has the weight of what it was made of. -/
theorem canonicalNotation_weight (marked : Marked weight) (text : List Char) :
    weigh weight (canonicalNotation unicode text) = weigh weight text := by
  have space : ∀ char, unicode.isSpace char = true → weight char = 0 := fun char space =>
    space_light marked space
  have named (letters : List Char) (none : ∀ char ∈ letters, char ∉ ['(', ')', '[', ']', ':', ';']) :
      weigh weight letters = 0 := weigh_zero fun char member => marked.light char (none char member)
  simp only [canonicalNotation]
  have blank : (run unicode.isSpace 1).Weightless weight := space
  rw [sub_weight_constant blank rfl rfl, sub_weight_constant ?_ rfl rfl,
    sub_weight_constant ?_ rfl (named _ (by decide)), sub_weight_constant ?_ rfl (named _ (by decide)),
    sub_weight_constant ?_ rfl (named _ (by decide)), sub_weight_group ?_ rfl (weigh_rootOf marked),
    sub_weight_group ?_ rfl (weigh_rootOf marked), rootSign_weight marked, fractionCommand_weight marked]
  · refine @sub_weight_group unicode weight textCommand ?_ rfl id (fun _ => rfl) text
    simp [textCommand, row, lit, Weightless, marked.light]
  · simp [rootCommand, row, lit, spaces, Weightless, marked.light]
    exact space
  · simp [rootWord, row, lit, spaces, Weightless, marked.light]
    exact space
  · simp [lit, Weightless, marked.light]
  · simp [lit, Weightless, marked.light]
  · simp [degreeSign, any, row, lit, opt, Weightless, marked.light]
  · simp [unitWord, any, row, lit, opt, Weightless, marked.light]

/-- An integer is printed as its digits; any other text stays. -/
theorem integerSurface_spec (text : List Char) :
    integerSurface unicode text = text ∨
      (∀ char ∈ text, char = '+' ∨ char = '-' ∨ unicode.isDecimal char = true) ∧
        integerSurface unicode text ≠ [] ∧
          ∀ char ∈ integerSurface unicode text, char = '-' ∨ char.isDigit = true := by
  rw [integerSurface]
  split
  next integer =>
    obtain ⟨found, here⟩ := Option.isSome_iff_exists.mp integer
    have member := List.mem_of_find?_eq_some here
    have whole : found.rest = [] := by simpa using List.find?_some here
    have parts := finds_text member
    rw [whole, List.append_nil] at parts
    have within : (row [sign, digits unicode]).Within
        (fun char => char = '+' ∨ char = '-' ∨ unicode.isDecimal char = true) := by
      simp [row, sign, opt, digits, Within]
      exact fun char decimal => .inr (.inr decimal)
    have all := finds_within within member
    rw [parts] at all
    have digit (value : Nat) : ∀ char ∈ Nat.toDigits 10 value, char = '-' ∨ char.isDigit = true :=
      fun char inDigits => .inr (Nat.isDigit_of_mem_toDigits (by decide) (by decide) inDigits)
    dsimp only
    split
    · split
      · exact .inr ⟨all, List.cons_ne_nil _ _, List.forall_mem_cons.mpr ⟨.inl rfl, digit _⟩⟩
      · exact .inr ⟨all, Nat.toDigits_ne_nil, digit _⟩
    · exact .inl rfl
  next => exact .inl rfl

theorem integerSurface_weight (marked : Marked weight) (text : List Char) :
    weigh weight (integerSurface unicode text) = weigh weight text := by
  rcases @integerSurface_spec unicode text with same | ⟨all, -, printed⟩
  · rw [same]
  · have outside (char : Char) (apart : ∀ mark ∈ ['(', ')', '[', ']', ':', ';'], char ≠ mark) :
        weight char = 0 := marked.light char fun member => apart char member rfl
    have decimal {char : Char} (isDecimal : unicode.isDecimal char = true) : weight char = 0 :=
      outside char fun mark member => decimal_apart isDecimal
        ((by decide : ∀ mark ∈ ['(', ')', '[', ']', ':', ';'], mark.toNat < 128) mark member)
        ((by decide : ∀ mark ∈ ['(', ')', '[', ']', ':', ';'], mark.isDigit = false) mark member)
    rw [weigh_zero, weigh_zero]
    · intro char member
      rcases all char member with rfl | rfl | isDecimal
      · exact marked.light '+' (by decide)
      · exact marked.light '-' (by decide)
      · exact decimal isDecimal
    · intro char member
      rcases printed char member with rfl | digit
      · exact marked.light '-' (by decide)
      · refine @decimal char ?_
        have code := isDigit_code digit
        rw [unicode.asciiDecimal char (by omega), digit]

end weights

section blanks

/-- A pattern without anchors whose matches neither begin nor end with spaces. -/
structure Visible (unicode : Unicode) (pattern : Regex) : Prop where
  free : pattern.Free = true
  begins : pattern.Begins (fun char => unicode.isSpace char = false)
  ends : pattern.Ends (fun char => unicode.isSpace char = false)

/-- Replacing the matches of such a pattern passes the spaces around a text by. -/
theorem Visible.sub_blank {pattern : Regex} (visible : Visible unicode pattern)
    {replacement : (Nat → List Char) → List Char} {front back : List Char}
    (blank : Blank unicode front) (blank' : Blank unicode back) (text : List Char) :
    subAll unicode pattern replacement (front ++ text ++ back) =
      front ++ subAll unicode pattern replacement text ++ back := by
  have spaced (text : List Char) (blank : Blank unicode text) :
      ∀ char ∈ text, ¬ unicode.isSpace char = false := fun char member visible => by
    rw [blank char member] at visible
    cases visible
  have apart : back.head?.any unicode.isWord = false := by
    cases back with
    | nil => rfl
    | cons char back => exact (unicode.space char (blank' char List.mem_cons_self)).1
  have same : (lastOf none front).any unicode.isWord = (none : Option Char).any unicode.isWord := by
    cases front with
    | nil => rfl
    | cons char front =>
      rw [lastOf_getLast (List.cons_ne_nil _ _), List.getLast?_eq_some_getLast (List.cons_ne_nil _ _)]
      exact (unicode.space _ (blank _ (List.getLast_mem _))).1
  rw [subAll, List.append_assoc, sub_front visible.begins front (spaced front blank),
    sub_append visible.free visible.begins visible.ends apart (fun char member =>
      ⟨spaced back blank' char member, spaced back blank' char member⟩),
    sub_last visible.free same, List.append_assoc]
  rfl

theorem smallAlphanum_visible {char : Char} (small : smallAlphanum char = true) :
    unicode.isSpace char = false := by
  refine alphanum_visible ?_
  rw [smallAlphanum, Bool.or_eq_true] at small
  rw [Char.isAlphanum, Char.isAlpha, Bool.or_eq_true, Bool.or_eq_true]
  exact small.imp .inr id

theorem textCommand_visible : Visible unicode textCommand :=
  ⟨rfl, ⟨rfl, by simp [textCommand, row, lit, MayBegin, Filled, unicode.asciiSpace]⟩,
    rfl, by simp [textCommand, row, lit, MayEnd, Filled, unicode.asciiSpace]⟩

theorem fractionCommand_visible : Visible unicode fractionCommand :=
  ⟨rfl, ⟨rfl, by simp [fractionCommand, row, lit, opt, MayBegin, Filled, unicode.asciiSpace]⟩,
    rfl, by simp [fractionCommand, row, lit, opt, MayEnd, Filled, unicode.asciiSpace]⟩

theorem rootSign_visible : Visible unicode (rootSign unicode) := by
  refine ⟨rfl, ⟨rfl, ?_⟩, rfl, ?_⟩
  · simp [rootSign, row, lit, any, spaces, MayBegin, Filled, (unicode.symbols '√' (by decide)).1]
  · simp [rootSign, row, lit, any, spaces, MayEnd, Filled, unicode.asciiSpace]
    exact fun char small => smallAlphanum_visible small

theorem rootCommand_visible : Visible unicode (rootCommand unicode) :=
  ⟨rfl, ⟨rfl, by simp [rootCommand, row, lit, spaces, MayBegin, Filled, unicode.asciiSpace]⟩,
    rfl, by simp [rootCommand, row, lit, spaces, MayEnd, Filled, unicode.asciiSpace]⟩

theorem rootWord_visible : Visible unicode (rootWord unicode) := by
  refine ⟨rfl, ⟨rfl, ?_⟩, rfl, ?_⟩
  · simp [rootWord, row, lit, spaces, MayBegin, Filled, unicode.asciiSpace]
  · simp [rootWord, row, lit, spaces, MayEnd, Filled]
    exact fun char small => smallAlphanum_visible small

theorem degreeSign_visible : Visible unicode degreeSign := by
  have degrees := (unicode.symbols '°' (by decide)).1
  refine ⟨rfl, ⟨rfl, ?_⟩, rfl, ?_⟩
  · simp [degreeSign, any, row, lit, opt, MayBegin, Filled, unicode.asciiSpace, degrees]
  · simp [degreeSign, any, row, lit, opt, MayEnd, Filled, unicode.asciiSpace, degrees]

theorem unitWord_visible : Visible unicode unitWord :=
  ⟨rfl, ⟨rfl, by simp [unitWord, any, row, lit, opt, MayBegin, Filled, unicode.asciiSpace]⟩,
    rfl, by simp [unitWord, any, row, lit, opt, MayEnd, Filled, unicode.asciiSpace]⟩

theorem canonicalNotation_blank {front back : List Char} (blank : Blank unicode front)
    (blank' : Blank unicode back) (text : List Char) :
    canonicalNotation unicode (front ++ text ++ back) = canonicalNotation unicode text := by
  have sign : Visible unicode (lit ['π']) := by
    have pi := (unicode.symbols 'π' (by decide)).1
    exact ⟨rfl, ⟨rfl, by simp [lit, MayBegin, Filled, pi]⟩, rfl, by simp [lit, MayEnd, Filled, pi]⟩
  have command : Visible unicode (lit ['\\', 'p', 'i']) :=
    ⟨rfl, ⟨rfl, by simp [lit, MayBegin, Filled, unicode.asciiSpace]⟩,
      rfl, by simp [lit, MayEnd, Filled, unicode.asciiSpace]⟩
  have vanish (text : List Char) (blank : Blank unicode text) :
      text.filter (fun char => !unicode.isSpace char) = [] :=
    List.filter_eq_nil_iff.mpr fun char member => by simp [blank char member]
  have kept (text : List Char) : subAll unicode (run unicode.isSpace 1) (fun _ => []) text =
      text.filter (fun char => !unicode.isSpace char) := sub_runs
  simp only [canonicalNotation]
  rw [textCommand_visible.sub_blank blank blank', fractionCommand_visible.sub_blank blank blank',
    rootSign_visible.sub_blank blank blank', rootCommand_visible.sub_blank blank blank',
    rootWord_visible.sub_blank blank blank', sign.sub_blank blank blank', command.sub_blank blank blank',
    degreeSign_visible.sub_blank blank blank', unitWord_visible.sub_blank blank blank', kept, kept,
    List.filter_append, List.filter_append, vanish front blank, vanish back blank', List.nil_append,
    List.append_nil]

end blanks

end SpecBlock.Scoring
