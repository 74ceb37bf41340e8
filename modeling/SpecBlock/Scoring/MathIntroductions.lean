import SpecBlock.Scoring.MathUnwrapping

/-!
# What normalisation makes of a word glued to an answer

Trimming takes an introducing word off the front of a text even where it is only the beginning of a longer
word. In lower case such a word is one of a few spellings. No stage of the canonical notation takes a
character of it, and what the answer behind it becomes is no shorter than what the answer becomes alone, so
the normal form with the word differs from the one without.
-/

namespace SpecBlock.Scoring

open Regex

variable {unicode : Unicode}

section spellings

/-- What the characters that match a letter in any case are in lower case. -/
def letterSpellings (letter : Char) : List (List Char) :=
  if letter = 'i' then [['i'], ['i', '\u0307'], ['ı']]
  else if letter = 's' then [['s'], ['ſ']]
  else [[letter]]

/-- What the texts that match a word in any case are in lower case. -/
def spellings (word : List Char) : List (List Char) :=
  word.foldr (fun letter rest => (letterSpellings letter).flatMap (fun first => rest.map (first ++ ·))) [[]]

/-- The words that introduce an answer. -/
def introductions : List (List Char) :=
  [['i', 's'], ['a', 'r', 'e'], ['e', 'q', 'u', 'a', 'l'], ['e', 'q', 'u', 'a', 'l', 's'],
    ['g', 'i', 'v', 'e'], ['g', 'i', 'v', 'e', 's'], ['b', 'e', 'c', 'o', 'm', 'e'],
    ['b', 'e', 'c', 'o', 'm', 'e', 's']]

/-- A character that matches a letter in any case, in lower case. -/
theorem sameLetter_lower {letter char : Char} (small : letter.isLower = true)
    (same : sameLetter letter char = true) :
    unicode.lowerChar char ∈ letterSpellings letter ∧ char ≠ 'Σ' := by
  simp only [sameLetter, Bool.or_eq_true, Bool.and_eq_true, beq_iff_eq] at same
  rcases same with ((lower | ⟨rfl, rfl | rfl⟩) | ⟨rfl, rfl⟩) | ⟨rfl, rfl⟩
  · have code := isAlpha_code (isAlpha_toLower (lower ▸ small))
    refine ⟨?_, ?_⟩
    · rw [unicode.asciiLower char (by omega), lower, letterSpellings]
      split
      next dotted => exact dotted ▸ .head _
      next =>
        split
        next long => exact long ▸ .head _
        next => exact .head _
    · rintro rfl
      exact absurd code.2 (by decide)
  · exact ⟨by rw [unicode.dottedI.2]; decide, by decide⟩
  · exact ⟨by rw [unicode.dotlessI.2]; decide, by decide⟩
  · exact ⟨by rw [unicode.longS.2]; decide, by decide⟩
  · exact ⟨by rw [unicode.kelvin.2]; decide, by decide⟩

theorem anyCase_lower {word : List Char} (small : ∀ letter ∈ word, letter.isLower = true)
    {last : Option Char} {text : List Char} {found : Found}
    (member : found ∈ finds unicode.isWord (anyCase word) last text) :
    found.text.flatMap unicode.lowerChar ∈ spellings word ∧ 'Σ' ∉ found.text := by
  induction word generalizing last text found with
  | nil =>
    rw [List.mem_singleton.mp member]
    exact ⟨.head _, nofun⟩
  | cons letter word ih =>
    obtain ⟨here, others⟩ := List.forall_mem_cons.mp small
    obtain ⟨first, inOne, next, inWord, rfl⟩ := mem_seq.mp member
    obtain ⟨spelled, absent⟩ := ih others inWord
    cases text with
    | nil => cases inOne
    | cons char text =>
      rw [finds] at inOne
      split at inOne
      next same =>
        obtain ⟨lowered, other⟩ := sameLetter_lower here same
        rw [List.mem_singleton.mp inOne]
        refine ⟨List.mem_flatMap.mpr ⟨_, lowered, List.mem_map.mpr ⟨_, spelled, rfl⟩⟩, ?_⟩
        exact fun inText => (List.mem_cons.mp inText).elim (fun same => other same.symm) absent
      next => cases inOne

theorem spellings_append {first second text text' : List Char} (spelled : text ∈ spellings first)
    (spelled' : text' ∈ spellings second) : text ++ text' ∈ spellings (first ++ second) := by
  induction first generalizing text with
  | nil => rwa [List.mem_singleton.mp spelled]
  | cons letter first ih =>
    obtain ⟨front, inLetter, others⟩ := List.mem_flatMap.mp spelled
    obtain ⟨rest, inRest, rfl⟩ := List.mem_map.mp others
    exact List.mem_flatMap.mpr ⟨front, inLetter, List.mem_map.mpr
      ⟨rest ++ text', ih inRest, (List.append_assoc _ _ _).symm⟩⟩

/-- A text that matches a word in any case, with `s` behind it or not, in lower case. -/
theorem anyCasePlural_lower {word : List Char} (small : ∀ letter ∈ word, letter.isLower = true)
    {last : Option Char} {text : List Char} {found : Found}
    (member : found ∈ finds unicode.isWord (anyCasePlural word) last text) :
    (found.text.flatMap unicode.lowerChar ∈ spellings word ∨
      found.text.flatMap unicode.lowerChar ∈ spellings (word ++ ['s'])) ∧ 'Σ' ∉ found.text := by
  obtain ⟨first, inWord, next, inPlural, rfl⟩ := mem_seq.mp member
  obtain ⟨spelled, absent⟩ := anyCase_lower small inWord
  rcases List.mem_append.mp inPlural with plural | single
  · obtain ⟨spelled', absent'⟩ := anyCase_lower (by decide) plural
    refine ⟨.inr ?_, fun inText => (List.mem_append.mp inText).elim absent absent'⟩
    rw [List.flatMap_append]
    exact spellings_append spelled spelled'
  · rw [List.mem_singleton.mp single]
    dsimp only
    rw [List.append_nil]
    exact ⟨.inl spelled, absent⟩

/-- What introduces an answer is a colon, an equality sign, or a word in one of its spellings. -/
theorem introductionWord_lower {last : Option Char} {text : List Char} {found : Found}
    (member : found ∈ finds unicode.isWord introductionWord last text) :
    found.text = [':'] ∨ found.text = ['='] ∨
      found.text.flatMap unicode.lowerChar ∈ introductions.flatMap spellings ∧ 'Σ' ∉ found.text := by
  have listed {word text : List Char} (inWords : word ∈ introductions) (spelled : text ∈ spellings word) :
      text ∈ introductions.flatMap spellings := List.mem_flatMap.mpr ⟨word, inWords, spelled⟩
  obtain ⟨pattern, inPatterns, inPattern⟩ := mem_any.mp member
  simp only [List.mem_cons, List.not_mem_nil, or_false] at inPatterns
  rcases inPatterns with rfl | rfl | rfl | rfl | rfl | rfl
  · cases text with
    | nil => cases inPattern
    | cons char text =>
      rw [finds] at inPattern
      split at inPattern
      next mark =>
        rw [List.mem_singleton.mp inPattern]
        simp only [Bool.or_eq_true, beq_iff_eq] at mark
        rcases mark with rfl | rfl
        · exact .inl rfl
        · exact .inr (.inl rfl)
      next => cases inPattern
  · exact .inr (.inr ((anyCase_lower (by decide) inPattern).imp_left (listed (by decide))))
  · exact .inr (.inr ((anyCase_lower (by decide) inPattern).imp_left (listed (by decide))))
  · exact .inr (.inr ((anyCasePlural_lower (by decide) inPattern).imp_left fun spelled =>
      spelled.elim (listed (by decide)) (listed (by decide))))
  · exact .inr (.inr ((anyCasePlural_lower (by decide) inPattern).imp_left fun spelled =>
      spelled.elim (listed (by decide)) (listed (by decide))))
  · exact .inr (.inr ((anyCasePlural_lower (by decide) inPattern).imp_left fun spelled =>
      spelled.elim (listed (by decide)) (listed (by decide))))

end spellings

section stages

/-- The first stages of the canonical notation: commands and signs are written out. -/
def writtenOut (unicode : Unicode) (text : List Char) : List Char :=
  subAll unicode (lit ['\\', 'p', 'i']) (fun _ => ['p', 'i'])
    (subAll unicode (lit ['π']) (fun _ => ['p', 'i'])
      (subAll unicode (rootWord unicode) (fun group => rootOf (group 1))
        (subAll unicode (rootCommand unicode) (fun group => rootOf (group 1))
          (subAll unicode (rootSign unicode)
            (fun group => rootOf (if group 1 = [] then group 2 else group 1))
            (subAll unicode fractionCommand (fun group => group 1 ++ ['/'] ++ group 2)
              (subAll unicode textCommand (fun group => group 1) text))))))

theorem canonicalNotation_eq (text : List Char) : canonicalNotation unicode text =
    (subAll unicode unitWord (fun _ => []) (subAll unicode degreeSign (fun _ => ['d', 'e', 'g'])
      (writtenOut unicode text))).filter (fun char => !unicode.isSpace char) := sub_runs

/-- Commands and signs begin with their own characters. -/
def commandMarks : List Char := ['\\', '√', 'π']

/-- Text without such characters in front stays as it is, and what is behind it does not see it. -/
theorem writtenOut_front {front : List Char} (others : ∀ char ∈ front, char ∉ commandMarks)
    (text : List Char) : writtenOut unicode (front ++ text) = front ++ writtenOut unicode text := by
  have passed (pattern : Regex) (blind : pattern.Blind = true)
      (begins : pattern.Begins (· ∈ commandMarks)) (replacement : (Nat → List Char) → List Char)
      (text : List Char) : subAll unicode pattern replacement (front ++ text) =
        front ++ subAll unicode pattern replacement text := by
    rw [subAll, sub_front begins front others, sub_blind blind _ none]
    rfl
  rw [writtenOut, passed textCommand rfl ⟨rfl, ?_⟩, passed fractionCommand rfl ⟨rfl, ?_⟩,
    passed (rootSign unicode) rfl ⟨rfl, ?_⟩, passed (rootCommand unicode) rfl ⟨rfl, ?_⟩,
    passed (rootWord unicode) rfl ⟨rfl, ?_⟩, passed (lit ['π']) rfl ⟨rfl, ?_⟩,
    passed (lit ['\\', 'p', 'i']) rfl ⟨rfl, ?_⟩]
  · rfl
  all_goals
    simp [textCommand, fractionCommand, rootSign, rootCommand, rootWord, row, lit, MayBegin, Filled,
      commandMarks]

theorem writtenOut_plain {text : List Char} (others : ∀ char ∈ text, char ∉ commandMarks) :
    writtenOut unicode text = text := by
  have nothing : writtenOut unicode [] = [] := by
    simp only [writtenOut, subAll, sub, pieces, List.flatMap_nil]
  calc writtenOut unicode text = writtenOut unicode (text ++ []) := by rw [List.append_nil]
    _ = text ++ writtenOut unicode [] := writtenOut_front others []
    _ = text := by rw [nothing, List.append_nil]

/-- Characters that degrees begin with. -/
def degreeMarks : List Char := ['^', '\\', '°', 'd']

theorem degreeSign_begins : degreeSign.Begins (· ∈ degreeMarks) :=
  ⟨rfl, by simp [degreeSign, any, row, lit, opt, MayBegin, Filled, degreeMarks]⟩

/-- The units. -/
def units : List (List Char) :=
  [['u', 'n', 'i', 't'], ['u', 'n', 'i', 't', 's'], ['m', 'e', 't', 'e', 'r'], ['m', 'e', 't', 'e', 'r', 's'],
    ['m', 'e', 't', 'r', 'e'], ['m', 'e', 't', 'r', 'e', 's'],
    ['c', 'e', 'n', 't', 'i', 'm', 'e', 't', 'e', 'r'], ['c', 'e', 'n', 't', 'i', 'm', 'e', 't', 'e', 'r', 's'],
    ['c', 'e', 'n', 't', 'i', 'm', 'e', 't', 'r', 'e'], ['c', 'e', 'n', 't', 'i', 'm', 'e', 't', 'r', 'e', 's'],
    ['c', 'm'], ['m', 'm'], ['f', 'e', 'e', 't'], ['f', 't'], ['i', 'n', 'c', 'h', 'e'],
    ['i', 'n', 'c', 'h', 'e', 's'], ['m', 'i', 'l', 'e'], ['m', 'i', 'l', 'e', 's']]

/-- Characters that units begin with. -/
def unitMarks : List Char := ['u', 'm', 'c', 'f', 'i']

theorem unitWord_begins : unitWord.Begins (· ∈ unitMarks) :=
  ⟨rfl, by simp [unitWord, any, row, lit, opt, MayBegin, Filled, unitMarks]⟩

/-- What a text written out, with `s` behind it or not, finds. -/
theorem mem_plural {word : List Char} {last : Option Char} {text : List Char} {found : Found}
    (member : found ∈ finds unicode.isWord (row [lit word, opt (lit ['s'])]) last text) :
    found.text = word ∨ found.text = word ++ ['s'] := by
  obtain ⟨first, inWord, next, inPlural, rfl⟩ := mem_seq.mp member
  obtain ⟨_, -, rfl⟩ := mem_lit.mp inWord
  rcases List.mem_append.mp inPlural with plural | single
  · obtain ⟨_, -, rfl⟩ := mem_lit.mp plural
    exact .inr rfl
  · rw [List.mem_singleton.mp single]
    exact .inl (List.append_nil _)

theorem finds_unitWord {last : Option Char} {text : List Char} {found : Found}
    (member : found ∈ finds unicode.isWord unitWord last text) :
    found.text ∈ units ∧ last.any unicode.isWord ≠ text.head?.any unicode.isWord := by
  obtain ⟨first, opening, next, inNext, rfl⟩ := mem_seq.mp member
  obtain ⟨opened, rfl⟩ := mem_boundary.mp opening
  obtain ⟨unit, inUnits, final, closing, rfl⟩ := mem_seq.mp inNext
  obtain ⟨-, rfl⟩ := mem_boundary.mp closing
  refine ⟨?_, opened⟩
  dsimp only
  rw [List.nil_append, List.append_nil]
  obtain ⟨pattern, inPatterns, inPattern⟩ := mem_any.mp inUnits
  simp only [List.mem_cons, List.not_mem_nil, or_false] at inPatterns
  have listed {word : List Char} (areUnits : word ∈ units ∧ word ++ ['s'] ∈ units)
      (inWord : unit ∈ finds unicode.isWord (row [lit word, opt (lit ['s'])]) (lastOf last []) text) :
      unit.text ∈ units := by
    rcases mem_plural inWord with same | same
    · exact same ▸ areUnits.1
    · exact same ▸ areUnits.2
  have single {word : List Char} (isUnit : word ∈ units)
      (inWord : unit ∈ finds unicode.isWord (lit word) (lastOf last []) text) : unit.text ∈ units := by
    obtain ⟨_, -, rfl⟩ := mem_lit.mp inWord
    exact isUnit
  rcases inPatterns with rfl | rfl | rfl | rfl | rfl | rfl | rfl | rfl | rfl | rfl | rfl
  · exact listed (by decide) inPattern
  · exact listed (by decide) inPattern
  · exact listed (by decide) inPattern
  · exact listed (by decide) inPattern
  · exact listed (by decide) inPattern
  · exact single (by decide) inPattern
  · exact single (by decide) inPattern
  · exact single (by decide) inPattern
  · exact single (by decide) inPattern
  · exact listed (by decide) inPattern
  · exact listed (by decide) inPattern

end stages

section glued

/-- Whether no unit begins inside of a text: characters that units begin with stand behind a small letter,
or are an `i` in front of another character than `n`. -/
def unitless : Option Char → List Char → Bool
  | _, [] => true
  | last, char :: rest =>
    (!unitMarks.contains char || last.any Char.isLower || (char == 'i' && rest.head?.any (· != 'n'))) &&
      unitless (some char) rest

/-- A spelling of an introducing word has no marks of commands and degrees and no units, begins with one of
a few letters and ends in one of a few. -/
theorem spellings_spec : ∀ word ∈ introductions.flatMap spellings,
    (∀ char ∈ word, char ∉ commandMarks ∧ char ∉ degreeMarks) ∧ unitless none word = true ∧
      word.head?.any (['i', 'a', 'e', 'g', 'b', 'ı'].contains ·) = true ∧
        word.getLast?.any (['s', 'ſ', 'e', 'l'].contains ·) = true := by decide

theorem isLower_word {char : Char} (small : char.isLower = true) : unicode.isWord char = true :=
  isAlpha_word (by rw [Char.isAlpha, small, Bool.or_true])

theorem sub_unitWord_front {front : List Char} {last : Option Char} (none : unitless last front = true)
    (text : List Char) : sub unicode.isWord unitWord (fun _ => []) last (front ++ text) =
      front ++ sub unicode.isWord unitWord (fun _ => []) (lastOf last front) text := by
  induction front generalizing last with
  | nil => rfl
  | cons char front ih =>
    obtain ⟨here, others⟩ := Bool.and_eq_true_iff.mp none
    have miss : matchAt unicode.isWord unitWord last (char :: (front ++ text)) = .none := by
      by_cases mark : char ∈ unitMarks
      · refine Option.eq_none_iff_forall_ne_some.mpr fun found there => ?_
        obtain ⟨isUnit, opened⟩ := finds_unitWord (matchAt_mem there).1
        have small : ∀ char ∈ unitMarks, char.isLower = true := by decide
        simp only [Bool.or_eq_true, Bool.not_eq_true', List.contains_eq_mem, decide_eq_false_iff_not,
          mark, not_true_eq_false, false_or, Bool.and_eq_true, beq_iff_eq] at here
        rcases here with behind | ⟨rfl, next⟩
        · -- inside of a word
          cases last with
          | none => cases behind
          | some other =>
            refine opened ?_
            rw [List.head?_cons, Option.any_some, Option.any_some, isLower_word behind,
              isLower_word (small char mark)]
        · have parts := matchAt_text there
          have second : ∀ unit ∈ units, unit.head? = some 'i' → unit[1]? = some 'n' := by decide
          cases front with
          | nil => cases next
          | cons after front =>
            cases taken : found.text with
            | nil => exact (matchAt_mem there).2 taken
            | cons char unit =>
              rw [taken, List.cons_append, List.cons_append] at parts
              obtain rfl := List.head_eq_of_cons_eq parts
              have tail : unit ++ found.rest = after :: (front ++ text) := List.tail_eq_of_cons_eq parts
              rw [taken] at isUnit
              have follows := second _ isUnit rfl
              cases unit with
              | nil => cases follows
              | cons other unit =>
                obtain rfl := List.head_eq_of_cons_eq tail
                obtain rfl : other = 'n' := Option.some.inj follows
                cases next
      · exact matchAt_begins unitWord_begins mark
    rw [List.cons_append, sub_miss miss, ih others]
    rfl

/-- The canonical notation of a word glued to a text keeps the word. -/
theorem canonicalNotation_glued {word : List Char} (spelled : word ∈ introductions.flatMap spellings)
    (text : List Char) : canonicalNotation unicode (word ++ text) =
      word.filter (fun char => !unicode.isSpace char) ++
        (sub unicode.isWord unitWord (fun _ => []) (lastOf none word)
          (sub unicode.isWord degreeSign (fun _ => ['d', 'e', 'g']) (lastOf none word)
            (writtenOut unicode text))).filter (fun char => !unicode.isSpace char) := by
  obtain ⟨marks, none, -⟩ := spellings_spec word spelled
  rw [canonicalNotation_eq, writtenOut_front fun char member => (marks char member).1, subAll, subAll,
    sub_front degreeSign_begins word fun char member => (marks char member).2, sub_unitWord_front none,
    List.filter_append]

theorem decimal_not_mem {digit : Char} (decimal : unicode.isDecimal digit = true) {marks : List Char}
    (others : ∀ mark ∈ marks, mark ∈ ['√', 'π', '°'] ∨ mark.toNat < 128 ∧ mark.isDigit = false) :
    digit ∉ marks := by
  intro member
  rcases others digit member with symbol | ⟨ascii, other⟩
  · have listed : ∀ symbol ∈ ['√', 'π', '°'], symbol ∈ ['√', 'π', '°', 'Σ', 'ſ', 'ı', '\u0307'] := by decide
    rw [(unicode.symbols digit (listed digit symbol)).2] at decimal
    cases decimal
  · exact decimal_apart decimal ascii other rfl

theorem canonicalNotation_digit {digit : Char} (decimal : unicode.isDecimal digit = true)
    (text : List Char) : ∃ rest, canonicalNotation unicode (digit :: text) = digit :: rest := by
  have single {marks : List Char}
      (others : ∀ mark ∈ marks, mark ∈ ['√', 'π', '°'] ∨ mark.toNat < 128 ∧ mark.isDigit = false) :
      ∀ char ∈ [digit], char ∉ marks :=
    List.forall_mem_singleton.mpr (decimal_not_mem decimal others)
  have visible := word_visible (unicode.decimal digit decimal).1
  have front : writtenOut unicode ([digit] ++ text) = [digit] ++ writtenOut unicode text :=
    writtenOut_front (single (by decide)) text
  have kept : canonicalNotation unicode ([digit] ++ text) = [digit] ++
      (sub unicode.isWord unitWord (fun _ => []) (some digit)
        (sub unicode.isWord degreeSign (fun _ => ['d', 'e', 'g']) (some digit)
          (writtenOut unicode text))).filter (fun char => !unicode.isSpace char) := by
    rw [canonicalNotation_eq, front, subAll, subAll,
      sub_front degreeSign_begins [digit] (single (by decide)),
      sub_front unitWord_begins [digit] (single (by decide)), List.filter_append,
      List.filter_cons_of_pos (by rw [visible]; rfl)]
    rfl
  exact ⟨_, kept⟩

end glued

section names

/-- Degrees begin with a mark, or are a word between its ends. -/
theorem finds_degreeSign {last : Option Char} {text : List Char} {found : Found}
    (member : found ∈ finds unicode.isWord degreeSign last text) :
    (∃ mark ∈ ['^', '\\', '°'], text.head? = some mark) ∨
      found.text ∈ [['d', 'e', 'g', 'r', 'e', 'e'], ['d', 'e', 'g', 'r', 'e', 'e', 's']] ∧
        last.any unicode.isWord ≠ text.head?.any unicode.isWord := by
  have head {pattern : Regex} (begins : pattern.Begins (· ∈ ['^', '\\', '°']))
      (inPattern : found ∈ finds unicode.isWord pattern last text) :
      ∃ mark ∈ ['^', '\\', '°'], text.head? = some mark := by
    obtain ⟨mark, first, isMark⟩ := finds_begins begins inPattern
    refine ⟨mark, isMark, ?_⟩
    rw [← finds_text inPattern, List.head?_append, first, Option.some_or]
  obtain ⟨pattern, inPatterns, inPattern⟩ := mem_any.mp member
  simp only [List.mem_cons, List.not_mem_nil, or_false] at inPatterns
  rcases inPatterns with rfl | rfl | rfl | rfl
  · exact .inl (head ⟨rfl, by simp [row, lit, opt, MayBegin, Filled]⟩ inPattern)
  · exact .inl (head ⟨rfl, by simp [lit, MayBegin, Filled]⟩ inPattern)
  · exact .inl (head ⟨rfl, by simp [lit, MayBegin, Filled]⟩ inPattern)
  · obtain ⟨first, opening, next, inNext, rfl⟩ := mem_seq.mp inPattern
    obtain ⟨opened, rfl⟩ := mem_boundary.mp opening
    obtain ⟨word, inWord, plural, inPlural, rfl⟩ := mem_seq.mp inNext
    obtain ⟨rest, -, rfl⟩ := mem_lit.mp inWord
    obtain ⟨ending, inEnding, final, closing, rfl⟩ := mem_seq.mp inPlural
    obtain ⟨-, rfl⟩ := mem_boundary.mp closing
    refine .inr ⟨?_, opened⟩
    dsimp only
    rw [List.nil_append, List.append_nil]
    rcases List.mem_append.mp inEnding with many | one
    · obtain ⟨_, -, rfl⟩ := mem_lit.mp many
      exact .tail _ (.head _)
    · rw [List.mem_singleton.mp one]
      exact .head _

/-- Behind the character of a word no degrees and no units begin at a small letter. -/
theorem glued_miss {last : Option Char} (behind : last.any unicode.isWord = true) {char : Char}
    (small : char.isLower = true) (text : List Char) :
    matchAt unicode.isWord degreeSign last (char :: text) = none ∧
      matchAt unicode.isWord unitWord last (char :: text) = none := by
  have closed : last.any unicode.isWord = (char :: text).head?.any unicode.isWord := by
    rw [behind, List.head?_cons, Option.any_some, isLower_word small]
  constructor
  · refine Option.eq_none_iff_forall_ne_some.mpr fun found here => ?_
    rcases finds_degreeSign (matchAt_mem here).1 with ⟨mark, isMark, head⟩ | ⟨-, opened⟩
    · obtain rfl : char = mark := Option.some.inj head
      have others : ∀ mark ∈ ['^', '\\', '°'], mark.isLower = false := by decide
      rw [others char isMark] at small
      cases small
    · exact opened closed
  · exact Option.eq_none_iff_forall_ne_some.mpr fun found here =>
      (finds_unitWord (matchAt_mem here).1).2 closed

/-- Of a word that begins with a small letter no more is taken behind the character of a word than at the
beginning of a text. -/
theorem glued_sublist {last : Option Char} (behind : last.any unicode.isWord = true) {char : Char}
    (small : char.isLower = true) (text : List Char) :
    (subAll unicode unitWord (fun _ => [])
      (subAll unicode degreeSign (fun _ => ['d', 'e', 'g']) (char :: text))).Sublist
        (sub unicode.isWord unitWord (fun _ => []) last
          (sub unicode.isWord degreeSign (fun _ => ['d', 'e', 'g']) last (char :: text))) := by
  have ofWord (char : Char) (small : char.isLower = true) : unicode.isWord char = true := isLower_word small
  cases here : matchAt unicode.isWord degreeSign none (char :: text) with
  | none =>
    rw [subAll, subAll, sub_miss here, sub_miss (glued_miss behind small text).1]
    refine sub_sublist ofWord (fun last char text behind small => (glued_miss behind small text).2) small
      behind fun found member => ⟨List.nil_sublist _, ?_⟩
    have letters : ∀ unit ∈ units, ∀ char ∈ unit, char.isLower = true := by decide
    exact letters _ (finds_unitWord member).1
  | some found =>
    obtain ⟨member, filled⟩ := matchAt_mem here
    rcases finds_degreeSign member with ⟨mark, isMark, head⟩ | ⟨degrees, -⟩
    · obtain rfl : char = mark := Option.some.inj head
      have others : ∀ mark ∈ ['^', '\\', '°'], mark.isLower = false := by decide
      rw [others char isMark] at small
      cases small
    · have shape : ∀ word ∈ [['d', 'e', 'g', 'r', 'e', 'e'], ['d', 'e', 'g', 'r', 'e', 'e', 's']],
          (∀ char ∈ word, char.isLower = true ∧ char ∉ unitMarks) ∧ ['d', 'e', 'g'].Sublist word := by decide
      obtain ⟨letters, part⟩ := shape _ degrees
      have words : ∀ char ∈ found.text, unicode.isWord char = true := fun char member =>
        isLower_word (letters char member).1
      -- behind the degrees both searches go on alike
      have same : (lastOf none ['d', 'e', 'g']).any unicode.isWord =
          (lastOf last found.text).any unicode.isWord := by
        rw [lastOf_word filled words]
        exact isLower_word (by decide)
      rw [subAll, subAll, sub_hit here, ← matchAt_text here,
        sub_inside ofWord (fun last char text behind small => (glued_miss behind small text).1)
          (fun char member => (letters char member).1) behind, lastOf_ne_nil filled none last,
        sub_front unitWord_begins ['d', 'e', 'g'] (by decide),
        sub_front unitWord_begins found.text fun char member => (letters char member).2,
        sub_last rfl same]
      exact part.append (List.Sublist.refl _)

theorem integerSurface_same {char : Char} {text : List Char} (other : char ∉ ['+', '-'])
    (plain : unicode.isDecimal char = false) : integerSurface unicode (char :: text) = char :: text := by
  rcases @integerSurface_spec unicode (char :: text) with same | ⟨all, -⟩
  · exact same
  · rcases all char List.mem_cons_self with rfl | rfl | decimal
    · exact absurd (by decide) other
    · exact absurd (by decide) other
    · rw [plain] at decimal
      cases decimal

/-- The normal form of a number or a name with an introducing word glued to it differs from the normal form
without the word. -/
theorem integerSurface_glued {word text : List Char} (spelled : word ∈ introductions.flatMap spellings)
    (shape : ∃ char rest, text = char :: rest ∧ (unicode.isDecimal char = true ∨
      char.isLower = true ∧ ∀ char ∈ text, char ∉ commandMarks)) :
    integerSurface unicode (canonicalNotation unicode (word ++ text)) ≠
      integerSurface unicode (canonicalNotation unicode text) := by
  obtain ⟨-, -, begins, ends⟩ := spellings_spec word spelled
  obtain ⟨first, others, rfl⟩ : ∃ first others, word = first :: others := by
    cases word with
    | nil => cases begins
    | cons first others => exact ⟨first, others, rfl⟩
  have letter : first ∈ ['i', 'a', 'e', 'g', 'b', 'ı'] := by simpa using begins
  have apart : ∀ letter ∈ ['i', 'a', 'e', 'g', 'b', 'ı'], letter ∉ ['+', '-'] ∧ letter.isDigit = false ∧
      (letter = 'ı' ∨ letter.isLower = true) := by decide
  obtain ⟨unsigned, noDigit, small⟩ := apart first letter
  have plain : unicode.isSpace first = false ∧ unicode.isDecimal first = false := by
    rcases small with rfl | small
    · exact unicode.symbols 'ı' (by decide)
    · exact ⟨word_visible (isLower_word small),
        alpha_not_decimal (by rw [Char.isAlpha, small, Bool.or_true])⟩
  rw [canonicalNotation_glued spelled, List.filter_cons_of_pos (by rw [plain.1]; rfl), List.cons_append,
    integerSurface_same unsigned plain.2]
  intro same
  rcases @integerSurface_spec unicode (canonicalNotation unicode text) with stays | ⟨-, -, printed⟩
  · rw [stays] at same
    obtain ⟨char, rest, rfl, decimal | ⟨lower, unmarked⟩⟩ := shape
    · -- the one begins with a letter, the other with a digit
      obtain ⟨behind, kept⟩ := canonicalNotation_digit decimal rest
      rw [kept] at same
      rw [← List.head_eq_of_cons_eq same, plain.2] at decimal
      cases decimal
    · -- the one is longer by the word
      have behind : (lastOf none (first :: others)).any unicode.isWord = true := by
        rw [lastOf_getLast (List.cons_ne_nil _ _)]
        cases last : (first :: others).getLast? with
        | none => cases List.getLast?_eq_none_iff.mp last
        | some final =>
          rw [last] at ends
          have closing : final ∈ ['s', 'ſ', 'e', 'l'] := by simpa using ends
          simp only [List.mem_cons, List.not_mem_nil, or_false] at closing
          rcases closing with rfl | rfl | rfl | rfl
          · exact isLower_word (by decide)
          · exact unicode.longS.1
          · exact isLower_word (by decide)
          · exact isLower_word (by decide)
      have part := ((glued_sublist behind lower rest).filter (fun char => !unicode.isSpace char)).length_le
      rw [canonicalNotation_eq, writtenOut_plain unmarked] at same
      have lengths := congrArg List.length same
      rw [List.length_cons, List.length_append] at lengths
      omega
  · rcases printed first (same ▸ List.mem_cons_self) with rfl | digit
    · exact unsigned (by decide)
    · rw [noDigit] at digit
      cases digit

end names

end SpecBlock.Scoring
