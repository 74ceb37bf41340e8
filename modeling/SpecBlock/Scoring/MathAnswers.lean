import Mathlib.Data.List.DropRight
import SpecBlock.Foundation.Regex

/-!
# Scoring answers to mathematics problems

A prediction and its reference go through one function: it extracts the surface of an answer from a text,
by rules that are tried in order, and normalises it. A prediction is correct when both have the same
normal form.

Which characters are spaces, digits or of a word, and how text is put in lower case, is given by tables
of the character database; what the patterns rely on is recorded with them.
-/

namespace SpecBlock.Scoring

open Regex

/-- A property of the characters of a list is decided along the list, not by going through all
characters. -/
instance (priority := 2000) decidableListed (letters : List Char) (holds : Char → Prop) [DecidablePred holds] :
    Decidable (∀ char ∈ letters, holds char) :=
  List.decidableBAll holds letters

/-- The tables of the character database that string methods and patterns read. -/
structure Unicode where
  isSpace : Char → Bool
  isDecimal : Char → Bool
  isWord : Char → Bool
  isCased : Char → Bool
  isCaseIgnorable : Char → Bool
  lowerChar : Char → List Char
  decimalValue : Char → Nat
  asciiSpace : ∀ char : Char, char.toNat < 128 →
    isSpace char = ([9, 10, 11, 12, 13, 28, 29, 30, 31, 32].contains char.toNat)
  asciiDecimal : ∀ char : Char, char.toNat < 128 → isDecimal char = char.isDigit
  asciiWord : ∀ char : Char, char.toNat < 128 → isWord char = (char.isAlphanum || char == '_')
  asciiCased : ∀ char : Char, char.toNat < 128 → isCased char = char.isAlpha
  asciiLower : ∀ char : Char, char.toNat < 128 → lowerChar char = [char.toLower]
  space : ∀ char : Char, isSpace char = true →
    isWord char = false ∧ isCased char = false ∧ lowerChar char = [char]
  decimal : ∀ char : Char, isDecimal char = true →
    isWord char = true ∧ isCased char = false ∧ isCaseIgnorable char = false ∧ lowerChar char = [char]
  lowered : ∀ char other : Char, 128 ≤ char.toNat → other ∈ lowerChar char → other.toNat < 128 →
    other.isLower = true
  symbols : ∀ char ∈ ['√', 'π', '°', 'Σ', 'ſ', 'ı', '\u0307'], isSpace char = false ∧ isDecimal char = false
  degrees : lowerChar '°' = ['°']
  longS : isWord 'ſ' = true ∧ lowerChar 'ſ' = ['ſ']
  dotlessI : isWord 'ı' = true ∧ lowerChar 'ı' = ['ı']
  dottedI : isWord 'İ' = true ∧ lowerChar 'İ' = ['i', '\u0307']
  kelvin : isWord '\u212a' = true ∧ lowerChar '\u212a' = ['k']

variable (unicode : Unicode)

/-- `str.strip`. -/
def strip (text : List Char) : List Char :=
  (text.dropWhile unicode.isSpace).rdropWhile unicode.isSpace

/-- Whether a capital sigma behind and in front of these characters, the nearest first, ends a word. -/
def finalSigma (before after : List Char) : Bool :=
  (before.dropWhile unicode.isCaseIgnorable).head?.any unicode.isCased &&
    !(after.dropWhile unicode.isCaseIgnorable).head?.any unicode.isCased

/-- `str.lower`, behind characters the nearest of which comes first. -/
def lowerBehind : List Char → List Char → List Char
  | _, [] => []
  | before, char :: rest =>
    (if char = 'Σ' then [if finalSigma unicode before rest then 'ς' else 'σ']
      else unicode.lowerChar char) ++ lowerBehind (char :: before) rest

/-- `str.lower`. -/
def lower (text : List Char) : List Char := lowerBehind unicode [] text

/-- Whether a character matches a small letter of a pattern that ignores case. -/
def sameLetter (letter char : Char) : Bool :=
  char.toLower == letter || (letter == 'i' && (char == 'İ' || char == 'ı')) ||
    (letter == 's' && char == 'ſ') || (letter == 'k' && char == '\u212a')

/-- A word of small letters, in any case. -/
def anyCase (word : List Char) : Regex :=
  word.foldr (fun letter rest => seq (one (sameLetter letter)) rest) empty

/-- A word in any case that may end in `s`. -/
def anyCasePlural (word : List Char) : Regex := seq (anyCase word) (opt (anyCase ['s']))

/-- A pattern of parts one behind the other. -/
def row : List Regex → Regex
  | [] => empty
  | [last] => last
  | first :: others => seq first (row others)

/-- `\s*`. -/
def spaces : Regex := run unicode.isSpace 0

/-- `\d+`. -/
def digits : Regex := run unicode.isDecimal 1

/-- `[+-]?` -/
def sign : Regex := opt (one (fun char => char == '+' || char == '-'))

/-- `[^{}]` -/
def notBrace (char : Char) : Bool := char != '{' && char != '}'

/-- `[A-Za-z0-9]` -/
def asciiAlphanum (char : Char) : Bool := char.isAlphanum

/-- `_extract_balanced_braces` and `_extract_balanced_parentheses` walk to the closing bracket of the
first opening one; this is the text up to it. -/
def upToClosing (opening closing : Char) : Nat → List Char → Option (List Char)
  | _, [] => none
  | depth, char :: rest =>
    if char = opening then (upToClosing opening closing (depth + 1) rest).map (char :: ·)
    else if char = closing then
      if depth = 1 then some [char] else (upToClosing opening closing (depth - 1) rest).map (char :: ·)
    else (upToClosing opening closing depth rest).map (char :: ·)

/-- `_extract_balanced_braces`, of the text from the start position. -/
def extractBalancedBraces (text : List Char) : Option (List Char) :=
  if text.head? = some '{' then
    (upToClosing '{' '}' 0 text).map (fun braces => braces.tail.dropLast)
  else none

/-- `_extract_balanced_parentheses`. -/
def extractBalancedParentheses (text : List Char) : Option (List Char) :=
  if text.head? = some '(' then upToClosing '(' ')' 0 text else none

/-- What introduces an answer: a colon, an equality sign or one of some words. -/
def introductionWord : Regex :=
  any [one (fun char => char == ':' || char == '='), anyCase ['i', 's'],
    anyCase ['a', 'r', 'e'], anyCasePlural ['e', 'q', 'u', 'a', 'l'],
    anyCasePlural ['g', 'i', 'v', 'e'], anyCasePlural ['b', 'e', 'c', 'o', 'm', 'e']]

/-- `^(?:[:=]|is|are|equals?|gives?|becomes?)\s*`, in any case. -/
def introduction : Regex := row [start, introductionWord, spaces unicode]

/-- `\$|\\\)|\]|[.?!;:]` -/
def endMarks : Regex :=
  any [lit ['$'], lit ['\\', ')'], lit [']'], one (fun char => ['.', '?', '!', ';', ':'].contains char)]

/-- `(?:\$|\\\)|\]|[.?!;:])\s*$` -/
def ending : Regex := row [endMarks, spaces unicode, finish]

/-- `^\$|^\\\(` -/
def wrapper : Regex := alt (seq start (lit ['$'])) (seq start (lit ['\\', '(']))

/-- `_trim_math_tail`. What introduces an answer, what ends its sentence and an opening wrapper are cut off,
each once. -/
def trimMathTail (text : List Char) : List Char :=
  let result := strip unicode text
  let result := sub unicode.isWord (introduction unicode) (fun _ => []) none result
  let result := strip unicode (sub unicode.isWord (ending unicode) (fun _ => []) none result)
  strip unicode (sub unicode.isWord wrapper (fun _ => []) none result)

/-- `[+-]?\\(?:d?frac)\{[^{}]+\}\{[^{}]+\}` -/
def latexFraction : Regex :=
  row [sign, lit ['\\'], row [opt (lit ['d']), lit ['f', 'r', 'a', 'c']], lit ['{'], run notBrace 1,
    lit ['}', '{'], run notBrace 1, lit ['}']]

/-- `[+-]?\d+(?:\.\d+)?(?:\s*/\s*\d+)?` -/
def number : Regex :=
  row [sign, digits unicode, opt (row [lit ['.'], digits unicode]),
    opt (row [spaces unicode, lit ['/'], spaces unicode, digits unicode])]

/-- `\{[^{}]+\}|[A-Za-z0-9]+` -/
def radicand : Regex := any [row [lit ['{'], run notBrace 1, lit ['}']], run asciiAlphanum 1]

/-- `(?:\s*(?:√\s*(?:\{[^{}]+\}|[A-Za-z0-9]+)|\\sqrt\s*(?:\{[^{}]+\}|[A-Za-z0-9]+)))?` -/
def radical : Regex :=
  opt (row [spaces unicode, any [row [lit ['√'], spaces unicode, radicand],
    row [lit ['\\', 's', 'q', 'r', 't'], spaces unicode, radicand]]])

/-- `(?:\s*(?:°|\\circ|\^\{?\\circ\}?|degrees?))?` -/
def degree : Regex :=
  opt (row [spaces unicode, any [lit ['°'], lit ['\\', 'c', 'i', 'r', 'c'],
    row [lit ['^'], opt (lit ['{']), lit ['\\', 'c', 'i', 'r', 'c'], opt (lit ['}'])],
    row [lit ['d', 'e', 'g', 'r', 'e', 'e'], opt (lit ['s'])]]])

/-- A fraction, or a number with a radical and degrees. -/
def numericPattern : Regex := any [latexFraction, row [number unicode, radical unicode, degree unicode]]

/-- `_numeric_surface`: the last number of the text, with what belongs to it. -/
def numericSurface (text : List Char) : Option (List Char) :=
  (finditer unicode.isWord (numericPattern unicode) text).getLast?.map
    (fun found => strip unicode found.text)

/-- `([A-Z][A-Za-z'\-]*)\b` -/
def nameWord : Regex :=
  row [group 1 (row [one Char.isUpper,
    run (fun char => char.isAlpha || char == '\'' || char == '-') 0]), boundary]

/-- `_math_surface_from_tail` of a trimmed candidate. -/
def candidateSurface (candidate : List Char) : Option (List Char) :=
  if candidate = [] then none
  else match extractBalancedParentheses candidate with
    | some parenthesized => some parenthesized
    | none => match matchAt unicode.isWord latexFraction none candidate with
      | some fraction => some fraction.text
      | none => match numericSurface unicode candidate with
        | some numeric => some numeric
        | none => (matchAt unicode.isWord nameWord none candidate).map (fun found => found.group 1)

/-- `_math_surface_from_tail`: of the trimmed text a group, a fraction in front, the last number or
a name in front, in this order. -/
def mathSurfaceFromTail (text : List Char) : Option (List Char) :=
  candidateSurface unicode (trimMathTail unicode text)

/-- `(?<![<>=])=(?!=)\s*([^\n]+)` -/
def equality : Regex :=
  row [behind (fun last => !last.any (fun char => ['<', '>', '='].contains char)), lit ['='],
    ahead (fun next => next != some '='), spaces unicode, group 1 (run (fun char => char != '\n') 1)]

/-- The copulas a conclusion is searched for. -/
def copulaWords : Regex :=
  any [anyCase ['i', 's'], anyCase ['a', 'r', 'e'], anyCase ['w', 'a', 's'],
    anyCase ['w', 'e', 'r', 'e'], anyCasePlural ['e', 'q', 'u', 'a', 'l'], anyCase ['h', 'a', 's'],
    anyCase ['h', 'a', 'v', 'e'], anyCase ['h', 'a', 'd'], anyCasePlural ['g', 'i', 'v', 'e'],
    anyCasePlural ['b', 'e', 'c', 'o', 'm', 'e']]

/-- A copula as a word of its own, and what follows. -/
def copula : Regex :=
  row [boundary, copulaWords, boundary, run unicode.isSpace 1,
    group 1 (run (fun char => char != '\n') 1)]

/-- The surface of what the last match captured; earlier matches are not tried. -/
def lastSurface (pattern : Regex) (text : List Char) : Option (List Char) :=
  (finditer unicode.isWord pattern text).getLast?.bind
    (fun found => mathSurfaceFromTail unicode (found.group 1))

/-- `_conclusion_surface`. The last equality wins if its right side has a surface, else the last copula. -/
def conclusionSurface (text : List Char) : Option (List Char) :=
  match lastSurface unicode (equality unicode) text with
  | some surface => some surface
  | none => lastSurface unicode (copula unicode) text

/-- A line boundary of `str.splitlines`. -/
def isLineBreak (char : Char) : Bool :=
  ['\n', '\r', '\x0b', '\x0c', '\x1c', '\x1d', '\x1e', '\u0085', '\u2028', '\u2029'].contains char

/-- `[.?!]` -/
def endsSentence (char : Char) : Bool := ['.', '?', '!'].contains char

/-- `re.split`, for a pattern without groups: the texts between the matches. -/
def splitAtMatches (pattern : Regex) (text : List Char) : List (List Char) :=
  ((pieces unicode.isWord pattern 0 none text).splitOnP Sum.isRight).map
    (fun parts => parts.filterMap Sum.getLeft?)

/-- `_last_conclusion_segment`; blank lines are dropped, so a line break of two characters may count as
two. -/
def lastConclusionSegment (text : List Char) : List Char × Bool :=
  let lines := (((strip unicode text).splitOnP isLineBreak).map (strip unicode)).filter (· ≠ [])
  match lines.getLast? with
  | none => ([], false)
  | some line =>
    let terminated :=
      (search unicode.isWord (row [one endsSentence, spaces unicode, finish]) line).isSome
    let sentences := ((splitAtMatches unicode
      (row [behind (fun last => last.any endsSentence), run unicode.isSpace 1]) line).map
        (strip unicode)).filter (· ≠ [])
    (sentences.getLast?.getD line, terminated)

/-- `\boxed` -/
def boxed : List Char := ['\\', 'b', 'o', 'x', 'e', 'd']

/-- The words that announce a conclusion. -/
def conclusionWords : Regex :=
  any [row [anyCase ['f', 'i', 'n', 'a', 'l'], opt (row [run unicode.isSpace 1,
      any [anyCase ['a', 'n', 's', 'w', 'e', 'r'], anyCase ['r', 'e', 's', 'u', 'l', 't'],
        anyCase ['v', 'a', 'l', 'u', 'e']]])],
    anyCase ['a', 'n', 's', 'w', 'e', 'r'], anyCase ['c', 'o', 'n', 'c', 'l', 'u', 's', 'i', 'o', 'n'],
    anyCase ['t', 'h', 'e', 'r', 'e', 'f', 'o', 'r', 'e'], anyCase ['t', 'h', 'u', 's'],
    anyCase ['h', 'e', 'n', 'c', 'e']]

/-- An announced conclusion. -/
def explicit : Regex :=
  row [boundary, conclusionWords unicode, boundary, spaces unicode,
    group 1 (run (fun char => char != '\n') 0)]

/-- `a or b` of two optional texts: the first unless it is missing or empty. -/
def orElse (first second : Option (List Char)) : Option (List Char) :=
  match first with
  | some surface => if surface = [] then second else some surface
  | none => second

/-- `extract_math_answer`. The last box with balanced braces wins, then the last announced answer,
then what the last sentence concludes; a bare text is an answer only as a whole. -/
def extractMathAnswer (text : List Char) : Option (List Char) :=
  let boxes := finditer unicode.isWord (seq (lit boxed) (spaces unicode)) text
  match boxes.reverse.findSome? (fun found => extractBalancedBraces found.rest) with
  | some value => some value
  | none =>
    let announced := finditer unicode.isWord (explicit unicode) text
    match announced.reverse.findSome? (fun found =>
      orElse (conclusionSurface unicode (found.group 1)) (mathSurfaceFromTail unicode (found.group 1))) with
    | some surface => some surface
    | none =>
      let (segment, terminated) := lastConclusionSegment unicode text
      match conclusionSurface unicode segment with
      | some surface => some surface
      | none =>
        match mathSurfaceFromTail unicode segment with
        | some bare =>
          if trimMathTail unicode segment = bare then some bare
          else if terminated then numericSurface unicode segment else none
        | none => if terminated then numericSurface unicode segment else none

/-- `^\$+|\$+$` -/
def dollars : Regex :=
  alt (seq start (run (· == '$') 1)) (seq (run (· == '$') 1) finish)

/-- `^\\\((.*)\\\)$` -/
def inlineMath : Regex :=
  row [start, lit ['\\', '('], group 1 (run (fun char => char != '\n') 0), lit ['\\', ')'], finish]

/-- `\\(?:left|right|,|!|;|:| )` -/
def spacing : Regex :=
  row [lit ['\\'], any [lit ['l', 'e', 'f', 't'], lit ['r', 'i', 'g', 'h', 't'], lit [','], lit ['!'],
    lit [';'], lit [':'], lit [' ']]]

/-- `\\text\{([^{}]*)\}` -/
def textCommand : Regex :=
  row [lit ['\\', 't', 'e', 'x', 't', '{'], group 1 (run notBrace 0), lit ['}']]

/-- `\\(?:d?frac)\{([^{}]+)\}\{([^{}]+)\}` -/
def fractionCommand : Regex :=
  row [lit ['\\'], row [opt (lit ['d']), lit ['f', 'r', 'a', 'c']], lit ['{'],
    group 1 (run notBrace 1), lit ['}', '{'], group 2 (run notBrace 1), lit ['}']]

/-- `[a-z0-9]` -/
def smallAlphanum (char : Char) : Bool := char.isLower || char.isDigit

/-- `√\s*(?:\{([^{}]+)\}|([a-z0-9]+))` -/
def rootSign : Regex :=
  row [lit ['√'], spaces unicode, any [row [lit ['{'], group 1 (run notBrace 1), lit ['}']],
    group 2 (run smallAlphanum 1)]]

/-- `\\sqrt\s*\{([^{}]+)\}` -/
def rootCommand : Regex :=
  row [lit ['\\', 's', 'q', 'r', 't'], spaces unicode, lit ['{'], group 1 (run notBrace 1), lit ['}']]

/-- `\\sqrt\s*([a-z0-9]+)` -/
def rootWord : Regex :=
  row [lit ['\\', 's', 'q', 'r', 't'], spaces unicode, group 1 (run smallAlphanum 1)]

/-- `(?:\^\{?\\circ\}?|\\circ|°|\bdegrees?\b)` -/
def degreeSign : Regex :=
  any [row [lit ['^'], opt (lit ['{']), lit ['\\', 'c', 'i', 'r', 'c'], opt (lit ['}'])],
    lit ['\\', 'c', 'i', 'r', 'c'], lit ['°'],
    row [boundary, lit ['d', 'e', 'g', 'r', 'e', 'e'], opt (lit ['s']), boundary]]

/-- `\b(?:units?|meters?|metres?|centimeters?|centimetres?|cm|mm|feet|ft|inches?|miles?)\b` -/
def unitWord : Regex :=
  row [boundary, any [
    row [lit ['u', 'n', 'i', 't'], opt (lit ['s'])],
    row [lit ['m', 'e', 't', 'e', 'r'], opt (lit ['s'])],
    row [lit ['m', 'e', 't', 'r', 'e'], opt (lit ['s'])],
    row [lit ['c', 'e', 'n', 't', 'i', 'm', 'e', 't', 'e', 'r'], opt (lit ['s'])],
    row [lit ['c', 'e', 'n', 't', 'i', 'm', 'e', 't', 'r', 'e'], opt (lit ['s'])],
    lit ['c', 'm'], lit ['m', 'm'], lit ['f', 'e', 'e', 't'], lit ['f', 't'],
    row [lit ['i', 'n', 'c', 'h', 'e'], opt (lit ['s'])],
    row [lit ['m', 'i', 'l', 'e'], opt (lit ['s'])]], boundary]

/-- `sqrt(…)` -/
def rootOf (text : List Char) : List Char := ['s', 'q', 'r', 't', '('] ++ text ++ [')']

/-- `re.sub` on a whole text. -/
def subAll (pattern : Regex) (replacement : (Nat → List Char) → List Char) (text : List Char) :
    List Char :=
  sub unicode.isWord pattern replacement none text

/-- What is left of an answer in front of its spaces, fractions and roots: the text without its dollars,
without the pair of inline parentheses, and without spacing commands. -/
def unwrapped (text : List Char) : List Char :=
  let result := subAll unicode dollars (fun _ => []) text
  let result := subAll unicode inlineMath (fun group => group 1) result
  subAll unicode spacing (fun _ => []) result

/-- The canonical notation of what was unwrapped. -/
def canonicalNotation (text : List Char) : List Char :=
  let result := subAll unicode textCommand (fun group => group 1) text
  let result := subAll unicode fractionCommand (fun group => group 1 ++ ['/'] ++ group 2) result
  let result := subAll unicode (rootSign unicode)
    (fun group => rootOf (if group 1 = [] then group 2 else group 1)) result
  let result := subAll unicode (rootCommand unicode) (fun group => rootOf (group 1)) result
  let result := subAll unicode (rootWord unicode) (fun group => rootOf (group 1)) result
  let result := subAll unicode (lit ['π']) (fun _ => ['p', 'i']) result
  let result := subAll unicode (lit ['\\', 'p', 'i']) (fun _ => ['p', 'i']) result
  let result := subAll unicode degreeSign (fun _ => ['d', 'e', 'g']) result
  let result := subAll unicode unitWord (fun _ => []) result
  subAll unicode (run unicode.isSpace 1) (fun _ => []) result

/-- `sys.int_info.default_max_str_digits`; `int` refuses a text of more digits. -/
def maxStrDigits : Nat := 4300

/-- `str(int(result))` where the text is an integer that `int` takes, the text elsewhere. -/
def integerSurface (text : List Char) : List Char :=
  if (fullmatch unicode.isWord (row [sign, digits unicode]) text).isSome then
    let unsigned := text.filter unicode.isDecimal
    if unsigned.length ≤ maxStrDigits then
      let value := unsigned.foldl (fun value char => value * 10 + unicode.decimalValue char) 0
      if text.head? = some '-' ∧ value ≠ 0 then '-' :: Nat.toDigits 10 value else Nat.toDigits 10 value
    else text
  else text

/-- What `normalize_math_answer` makes of an extracted surface, before the empty text is refused. -/
def canonical (surface : List Char) : List Char :=
  integerSurface unicode (canonicalNotation unicode (unwrapped unicode (lower unicode (strip unicode surface))))

/-- A field of an artifact: missing, a text, a number with its printed form, or of another type. -/
inductive FieldValue where
  | absent
  | text (content : List Char)
  | number (printed : List Char)
  | other

/-- `_as_text`. -/
def asText : FieldValue → Option (List Char)
  | .text content => some content
  | .number printed => some printed
  | .absent | .other => none

/-- `normalize_math_answer`. An answer that becomes empty is none. -/
def normalizeMathAnswer (value : FieldValue) : Option (List Char) :=
  ((asText value).bind (extractMathAnswer unicode)).bind (fun extracted =>
    let result := canonical unicode extracted
    if result = [] then none else some result)

/-- What a record gives: its raw reference and its prediction. -/
structure MathRecord where
  reference : FieldValue
  prediction : FieldValue

/-- What `_evaluate_math500` counts. -/
structure MathCounts where
  correct : Nat
  evaluated : Nat
  extractionFailures : Nat

/-- One record of `_evaluate_math500`. -/
def countMathRecord (counts : MathCounts) (record : MathRecord) : MathCounts :=
  match record.reference with
  | .absent => counts
  | rawReference =>
    let counts := { counts with evaluated := counts.evaluated + 1 }
    match normalizeMathAnswer unicode record.prediction with
    | none => { counts with extractionFailures := counts.extractionFailures + 1 }
    | some prediction =>
      if normalizeMathAnswer unicode rawReference = some prediction then
        { counts with correct := counts.correct + 1 }
      else counts

/-- The counts of `_evaluate_math500`. -/
def evaluateMath500 (records : List MathRecord) : MathCounts :=
  records.foldl (countMathRecord unicode) ⟨0, 0, 0⟩

end SpecBlock.Scoring
