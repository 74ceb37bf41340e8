import Mathlib.Data.List.Infix
import SpecBlock.Serving.KvPool

/-!
# When a request stops

After each emitted token a request is checked against its token budget, its grammar, its stop
tokens, the vocabulary and its stop strings. The check leaves a request that goes on as it
was, so the check after several tokens can be read from the request before them: it
sees the request with those tokens and with the grammar moved past all but the last.

A token outside the vocabulary stops the request and is overwritten by a stop token, when there
is one. No other branch touches the emitted tokens.

Decoding, the search for a regular expression and the grammar are external and enter as
parameters.
-/

namespace SpecBlock.Serving

variable {G : Type}

/-- Why a request stopped. -/
inductive FinishReason where
  | length (maxNewTokens : Nat)
  | matchedToken (token : Int)
  | matchedStr (stop : String)
  | matchedRegex (stop : String)
  | abort (message : String)
  deriving DecidableEq, Repr

/-- The stop conditions of a request. -/
structure SamplingParams where
  maxNewTokens : Nat
  ignoreEos : Bool
  stopTokenIds : List Int
  stopStrs : List String
  stopStrMaxLen : Nat
  stopRegexStrs : List String
  stopRegexMaxLen : Nat
  deriving DecidableEq, Repr

/-- The stop tokens of a tokenizer. -/
structure Tokenizer where
  eosTokenId : Option Int
  additionalStopTokenIds : List Int
  deriving DecidableEq, Repr

/-- A request of the decoding batch, with what its stop check and its cache accounting read. -/
structure DecodingReq (G : Type) where
  outputIds : List Int
  decodedText : String
  samplingParams : SamplingParams
  eosTokenIds : List Int
  tokenizer : Option Tokenizer
  vocabSize : Int
  grammar : Option G
  toFinish : Option FinishReason
  finishedReason : Option FinishReason
  finishedLen : Option Nat
  specVerifyCt : Nat
  specAcceptedTokens : Nat
  kvCommittedLen : Nat
  kvAllocatedLen : Nat
  deriving DecidableEq, Repr

/-- External parts of the stop check: the decoder, the search for a regular expression, and the
grammar, which may refuse a token. -/
structure StopRules (G : Type) where
  decode : List Int → String
  search : String → String → Bool
  acceptToken : G → Int → Except RuntimeError G
  isTerminated : G → Bool

namespace DecodingReq

/-- Whether the request has reached a stop condition. -/
def finished (req : DecodingReq G) : Bool := req.finishedReason.isSome

/-- The decoded tail in which stop strings are looked for. -/
def tailStr (rules : StopRules G) (req : DecodingReq G) : String :=
  let maxLenTailStr := max (req.samplingParams.stopStrMaxLen + 1) (req.samplingParams.stopRegexMaxLen + 1)
  let tailLen := min (maxLenTailStr + 1) req.outputIds.length
  rules.decode (req.outputIds.drop (req.outputIds.length - tailLen))

/-- Whether a token is one of the stop tokens. -/
def matchesStopToken (req : DecodingReq G) (tokenId : Int) : Bool :=
  req.samplingParams.stopTokenIds.contains tokenId || req.eosTokenIds.contains tokenId ||
    match req.tokenizer with
    | none => false
    | some tokenizer => tokenizer.eosTokenId == some tokenId ||
        tokenizer.additionalStopTokenIds.contains tokenId

/-- Stop at the first stop token among the newly accepted ones. -/
def checkTokenBasedFinish (newAcceptedTokens : List Int) (req : DecodingReq G) :
    Option (DecodingReq G) :=
  if req.samplingParams.ignoreEos then none
  else (newAcceptedTokens.zipIdx.find? (fun indexed => req.matchesStopToken indexed.1)).map
    fun indexed => { req with
      finishedReason := some (.matchedToken indexed.1)
      finishedLen := some (req.outputIds.length - newAcceptedTokens.length + indexed.2 + 1) }

/-- Whether a token lies outside the vocabulary. -/
def outsideVocabulary (req : DecodingReq G) (tokenId : Int) : Bool :=
  decide (req.vocabSize < tokenId) || decide (tokenId < 0)

/-- The token that replaces one outside the vocabulary: the stop tokens give one, and those of
the model come after those of the request. -/
def replacement (req : DecodingReq G) (tokenId : Int) : Int :=
  let tokenId := req.samplingParams.stopTokenIds.headD tokenId
  req.eosTokenIds.headD tokenId

/-- Stop at the first newly accepted token outside the vocabulary and overwrite it. -/
def checkVocabBoundaryFinish (newAcceptedTokens : List Int) (req : DecodingReq G) :
    Option (DecodingReq G) :=
  (newAcceptedTokens.zipIdx.find? (fun indexed => req.outsideVocabulary indexed.1)).map
    fun indexed =>
      let offset := req.outputIds.length - newAcceptedTokens.length + indexed.2
      { req with
        outputIds := req.outputIds.set offset (req.replacement indexed.1)
        finishedReason := some (.matchedStr "NaN happened")
        finishedLen := some (offset + 1) }

/-- Stop when a stop string or a stop expression occurs. -/
def checkStrBasedFinish (rules : StopRules G) (req : DecodingReq G) : Option (DecodingReq G) :=
  if req.samplingParams.stopStrs = [] ∧ req.samplingParams.stopRegexStrs = [] then none
  else
    let tailStr := req.tailStr rules
    match req.samplingParams.stopStrs.find? (fun stopStr =>
        decide (stopStr.toList <:+: tailStr.toList) ||
          decide (stopStr.toList <:+: req.decodedText.toList)) with
    | some stopStr => some { req with finishedReason := some (.matchedStr stopStr) }
    | none => (req.samplingParams.stopRegexStrs.find? (fun stop => rules.search stop tailStr)).map
        fun stop => { req with finishedReason := some (.matchedRegex stop) }

/-- Whether the grammar of the request, if it has one, is complete. -/
def grammarTerminated (rules : StopRules G) (req : DecodingReq G) : Bool :=
  req.grammar.any rules.isTerminated

/-- Check a request after some newly accepted tokens. -/
def checkFinished (rules : StopRules G) (newAcceptedLen : Nat) (req : DecodingReq G) : DecodingReq G :=
  if req.finished then req
  else match req.toFinish with
    | some reason => { req with finishedReason := some reason, toFinish := none }
    | none =>
      if req.samplingParams.maxNewTokens ≤ req.outputIds.length then
        { req with
          finishedReason := some (.length req.samplingParams.maxNewTokens)
          finishedLen := some req.samplingParams.maxNewTokens }
      else if req.grammarTerminated rules then
        { req with finishedReason := some (.matchedToken (req.outputIds.getLastD 0)) }
      else
        let newAcceptedTokens := req.outputIds.drop (req.outputIds.length - newAcceptedLen)
        (((req.checkTokenBasedFinish newAcceptedTokens).or
          (req.checkVocabBoundaryFinish newAcceptedTokens)).or
            (req.checkStrBasedFinish rules)).getD req

/-- Move the grammar of the request past a token. -/
def acceptGrammarToken (rules : StopRules G) (tokenId : Int) (req : DecodingReq G) :
    Except RuntimeError (DecodingReq G) :=
  match req.grammar with
  | none => .ok req
  | some grammar => do return { req with grammar := some (← rules.acceptToken grammar tokenId) }

/-- The request after some more tokens, with a grammar. -/
def shown (req : DecodingReq G) (tokens : List Int) (grammar : Option G) : DecodingReq G :=
  { req with outputIds := req.outputIds ++ tokens, grammar := grammar }

/-- The grammar moved past some tokens. -/
def grammarAfter (rules : StopRules G) : Option G → List Int → Except RuntimeError (Option G)
  | grammar, [] => .ok grammar
  | none, _ :: _ => .ok none
  | some grammar, tokenId :: rest => do grammarAfter rules (some (← rules.acceptToken grammar tokenId)) rest

/-- Whether the check after some emitted tokens stops the request: the stop predicate. -/
def stopsAfter (rules : StopRules G) (req : DecodingReq G) (emitted : List Int) : Bool :=
  match grammarAfter rules req.grammar emitted.dropLast with
  | .ok grammar => ((req.shown emitted grammar).checkFinished rules 1).finished
  | .error _ => false

theorem checkTokenBasedFinish_some {newAcceptedTokens : List Int} {req stopped : DecodingReq G}
    (matched : req.checkTokenBasedFinish newAcceptedTokens = some stopped) :
    ∃ reason finishedLen, stopped = { req with
      finishedReason := some reason, finishedLen := finishedLen } := by
  unfold checkTokenBasedFinish at matched
  split at matched
  next => cases matched
  next =>
    obtain ⟨indexed, -, rfl⟩ := Option.map_eq_some_iff.mp matched
    exact ⟨_, _, rfl⟩

/-- A new token outside the vocabulary stops the request and is overwritten. -/
theorem checkVocabBoundaryFinish_some {newAcceptedTokens : List Int} {req stopped : DecodingReq G}
    (crossed : req.checkVocabBoundaryFinish newAcceptedTokens = some stopped) :
    ∃ tokenId ∈ newAcceptedTokens, req.outsideVocabulary tokenId = true ∧
      ∃ offset finishedLen, stopped = { req with
          outputIds := req.outputIds.set offset (req.replacement tokenId)
          finishedReason := some (.matchedStr "NaN happened")
          finishedLen := finishedLen } := by
  obtain ⟨indexed, found, rfl⟩ := Option.map_eq_some_iff.mp crossed
  have member := List.mem_of_find?_eq_some found
  have outside := List.find?_some found
  exact ⟨indexed.1, List.fst_mem_of_mem_zipIdx member, outside, _, _, rfl⟩

/-- A stop string or expression stops the request and changes nothing else. -/
theorem checkStrBasedFinish_some {rules : StopRules G} {req stopped : DecodingReq G}
    (matched : req.checkStrBasedFinish rules = some stopped) :
    ∃ reason, stopped = { req with finishedReason := some reason } := by
  unfold checkStrBasedFinish at matched
  split at matched
  next => cases matched
  next =>
    dsimp only at matched
    split at matched
    next =>
      cases matched
      exact ⟨_, rfl⟩
    next =>
      obtain ⟨stop, -, rfl⟩ := Option.map_eq_some_iff.mp matched
      exact ⟨_, rfl⟩

/-- What a check can do: leave the request, stop it, or stop it and overwrite a new token outside
the vocabulary. -/
theorem checkFinished_cases (rules : StopRules G) (newAcceptedLen : Nat) (req : DecodingReq G) :
    req.checkFinished rules newAcceptedLen = req ∨
    (∃ reason finishedLen toFinish, req.checkFinished rules newAcceptedLen = { req with
      finishedReason := some reason, finishedLen := finishedLen, toFinish := toFinish }) ∨
    ∃ tokenId ∈ req.outputIds.drop (req.outputIds.length - newAcceptedLen),
      req.outsideVocabulary tokenId = true ∧ ∃ offset finishedLen,
        req.checkFinished rules newAcceptedLen = { req with
          outputIds := req.outputIds.set offset (req.replacement tokenId)
          finishedReason := some (.matchedStr "NaN happened")
          finishedLen := finishedLen } := by
  unfold checkFinished
  split
  next => exact .inl rfl
  split
  next => exact .inr (.inl ⟨_, _, _, rfl⟩)
  split
  next => exact .inr (.inl ⟨_, _, _, rfl⟩)
  split
  next => exact .inr (.inl ⟨_, _, _, rfl⟩)
  dsimp only
  generalize req.outputIds.drop (req.outputIds.length - newAcceptedLen) = newAcceptedTokens
  cases byToken : req.checkTokenBasedFinish newAcceptedTokens with
  | some stopped =>
    obtain ⟨reason, finishedLen, rfl⟩ := checkTokenBasedFinish_some byToken
    exact .inr (.inl ⟨reason, finishedLen, req.toFinish, rfl⟩)
  | none =>
    cases byBoundary : req.checkVocabBoundaryFinish newAcceptedTokens with
    | some stopped =>
      obtain ⟨tokenId, member, outside, offset, finishedLen, rfl⟩ :=
        checkVocabBoundaryFinish_some byBoundary
      exact .inr (.inr ⟨tokenId, member, outside, offset, finishedLen, rfl⟩)
    | none =>
      cases byText : req.checkStrBasedFinish rules with
      | none => exact .inl rfl
      | some stopped =>
        obtain ⟨reason, rfl⟩ := checkStrBasedFinish_some byText
        exact .inr (.inl ⟨reason, req.finishedLen, req.toFinish, rfl⟩)

/-- A check that does not stop a request leaves it as it was. -/
theorem checkFinished_running {rules : StopRules G} {newAcceptedLen : Nat} {req : DecodingReq G}
    (running : (req.checkFinished rules newAcceptedLen).finished = false) :
    req.checkFinished rules newAcceptedLen = req := by
  rcases checkFinished_cases rules newAcceptedLen req with same | ⟨_, _, _, same⟩ | ⟨_, -, -, _, _, same⟩
  · exact same
  · rw [same] at running
    cases running
  · rw [same] at running
    cases running

/-- A check keeps the cache accounting, and the emitted tokens up to the new ones. -/
theorem checkFinished_keeps (rules : StopRules G) (newAcceptedLen : Nat) (req : DecodingReq G) :
    let checked := req.checkFinished rules newAcceptedLen
    checked.kvCommittedLen = req.kvCommittedLen ∧ checked.kvAllocatedLen = req.kvAllocatedLen ∧
      checked.specVerifyCt = req.specVerifyCt ∧
      checked.specAcceptedTokens = req.specAcceptedTokens ∧
      checked.outputIds.length = req.outputIds.length := by
  dsimp only
  rcases checkFinished_cases rules newAcceptedLen req with same | ⟨_, _, _, same⟩ | ⟨_, -, -, _, _, same⟩ <;>
    rw [same] <;> simp

/-- A check keeps emitted tokens when the new ones are in the vocabulary. -/
theorem checkFinished_outputIds {rules : StopRules G} {newAcceptedLen : Nat} {req : DecodingReq G}
    (vocabulary : ∀ tokenId ∈ req.outputIds.drop (req.outputIds.length - newAcceptedLen),
      0 ≤ tokenId ∧ tokenId ≤ req.vocabSize) :
    (req.checkFinished rules newAcceptedLen).outputIds = req.outputIds := by
  rcases checkFinished_cases rules newAcceptedLen req with
    same | ⟨_, _, _, same⟩ | ⟨tokenId, member, outside, _, _, same⟩
  · rw [same]
  · rw [same]
  · have inside := vocabulary tokenId member
    simp only [outsideVocabulary, Bool.or_eq_true, decide_eq_true_iff] at outside
    omega

theorem grammarAfter_cons {rules : StopRules G} {req next : DecodingReq G} {tokenId : Int}
    (accepted : req.acceptGrammarToken rules tokenId = .ok next) (rest : List Int) :
    grammarAfter rules req.grammar (tokenId :: rest) = grammarAfter rules next.grammar rest ∧
      next = { req with grammar := next.grammar } := by
  unfold acceptGrammarToken at accepted
  cases owned : req.grammar with
  | none =>
    rw [owned] at accepted
    cases accepted
    refine ⟨?_, rfl⟩
    rw [owned]
    cases rest <;> rfl
  | some grammar =>
    rw [owned] at accepted
    cases moved : rules.acceptToken grammar tokenId with
    | error message => simp [moved, bind, Except.bind] at accepted
    | ok following =>
      simp only [moved, bind, Except.bind, pure, Except.pure, Except.ok.injEq] at accepted
      subst accepted
      exact ⟨by simp [grammarAfter, moved, bind, Except.bind], rfl⟩

theorem grammarAfter_refused {rules : StopRules G} {req : DecodingReq G} {tokenId : Int}
    {message : RuntimeError} (refused : req.acceptGrammarToken rules tokenId = .error message) :
    grammarAfter rules req.grammar [tokenId] = .error message := by
  unfold acceptGrammarToken at refused
  cases owned : req.grammar with
  | none =>
    rw [owned] at refused
    cases refused
  | some grammar =>
    rw [owned] at refused
    cases moved : rules.acceptToken grammar tokenId with
    | error reason =>
      simp only [moved, bind, Except.bind, Except.error.injEq] at refused
      simp [grammarAfter, moved, bind, Except.bind, refused]
    | ok following => simp [moved, bind, Except.bind, pure, Except.pure] at refused

end DecodingReq

end SpecBlock.Serving
