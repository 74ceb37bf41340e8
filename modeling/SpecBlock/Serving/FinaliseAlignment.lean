import SpecBlock.Serving.OverlapSlots
import SpecBlock.Serving.RequestFinalise
import SpecBlock.Serving.SpecInfo

/-!
# Tokens, paths and slots of finalised requests

Every request emits the tokens of its path up to the first one after which the stop check stops
it. The cut rows hold the first nodes of the paths, so the compact indices are the cut paths one
after the other, and everything gathered by them follows. The slots of all other nodes are
returned, and the lengths of a request advance by what it emitted.

The allocated length is set to the committed one. Preparation has raised it by one before, so over
the verification alone it advances by one less than the emitted tokens, and over both by as many.
-/

namespace SpecBlock.Serving

open Rows DecodingReq

variable {G T α : Type} {rules : StopRules G}

/-- What a request emits of a path: the tokens up to and including the first after which the stop
check stops it. -/
structure FirstStop (rules : StopRules G) (req : DecodingReq G) (path : List Int) (count : Nat) :
    Prop where
  positive : 0 < count
  within : count ≤ path.length
  running : ∀ emitted, 0 < emitted → emitted < count →
    req.stopsAfter rules (path.take emitted) = false
  stopped : count < path.length → req.stopsAfter rules (path.take count) = true

/-- A request after it emitted some tokens. -/
structure Emitted (rules : StopRules G) (req : DecodingReq G) (tokens : List Int)
    (after : DecodingReq G) : Prop where
  length : after.outputIds.length = req.outputIds.length + tokens.length
  outputIds : (∀ tokenId ∈ tokens, 0 ≤ tokenId ∧ tokenId ≤ req.vocabSize) →
    after.outputIds = req.outputIds ++ tokens
  finished : after.finished = req.stopsAfter rules tokens
  kvCommittedLen : after.kvCommittedLen = req.kvCommittedLen
  kvAllocatedLen : after.kvAllocatedLen = req.kvAllocatedLen
  specVerifyCt : after.specVerifyCt = req.specVerifyCt
  specAcceptedTokens : after.specAcceptedTokens = req.specAcceptedTokens

/-- The grammar of a request refuses a token of a path before the request stops. -/
def Refused (rules : StopRules G) (req : DecodingReq G) (path : List Int) (message : RuntimeError) :
    Prop :=
  ∃ last < path.length, grammarAfter rules req.grammar (path.take (last + 1)) = .error message ∧
    ∀ emitted, 0 < emitted → emitted ≤ last + 1 → req.stopsAfter rules (path.take emitted) = false

section emission

variable {req next : DecodingReq G} {tokenId : Int}

/-- The stop predicate after more tokens, read once the first was accepted. -/
theorem stopsAfter_cons
    (accepted : { req with outputIds := req.outputIds ++ [tokenId] }.acceptGrammarToken rules tokenId
      = .ok next) {emitted : List Int} (more : emitted ≠ []) :
    req.stopsAfter rules (tokenId :: emitted) = next.stopsAfter rules emitted := by
  obtain ⟨moved, same⟩ := grammarAfter_cons accepted emitted.dropLast
  have shownSame (grammar : Option G) :
      req.shown (tokenId :: emitted) grammar = next.shown emitted grammar := by
    rw [same]
    simp [shown]
  unfold stopsAfter
  rw [List.dropLast_cons_of_ne_nil more]
  simp only at moved
  rw [moved]
  simp only [shownSame]

theorem Emitted.cons
    (accepted : { req with outputIds := req.outputIds ++ [tokenId] }.acceptGrammarToken rules tokenId
      = .ok next) {tokens : List Int} {after : DecodingReq G} (more : tokens ≠ [])
    (emitted : Emitted rules next tokens after) : Emitted rules req (tokenId :: tokens) after := by
  have same := (grammarAfter_cons accepted []).2
  refine ⟨?_, fun vocabulary => ?_, ?_, ?_, ?_, ?_, ?_⟩
  · rw [emitted.length, same]
    simp only [List.length_append, List.length_cons, List.length_nil]
    omega
  · rw [emitted.outputIds, same, List.append_assoc, List.singleton_append]
    rw [same]
    exact fun other member => vocabulary other (List.mem_cons_of_mem _ member)
  · rw [emitted.finished, stopsAfter_cons accepted more]
  · rw [emitted.kvCommittedLen, same]
  · rw [emitted.kvAllocatedLen, same]
  · rw [emitted.specVerifyCt, same]
  · rw [emitted.specAcceptedTokens, same]

theorem Emitted.checked (rules : StopRules G) (req : DecodingReq G) (tokenId : Int) :
    Emitted rules req [tokenId]
      ({ req with outputIds := req.outputIds ++ [tokenId] }.checkFinished rules 1) := by
  obtain ⟨committed, allocated, verified, accepted, length⟩ :=
    checkFinished_keeps rules 1 { req with outputIds := req.outputIds ++ [tokenId] }
  refine ⟨by simpa using length, fun vocabulary => ?_, rfl, committed, allocated, verified, accepted⟩
  refine checkFinished_outputIds fun other member => vocabulary other ?_
  simpa using member

/-- A request that emitted one token and went on, with its grammar moved. -/
theorem Emitted.accepted
    (goesOn : ({ req with outputIds := req.outputIds ++ [tokenId] }.checkFinished rules 1).finished = false)
    (accepted : { req with outputIds := req.outputIds ++ [tokenId] }.acceptGrammarToken rules tokenId
      = .ok next) : Emitted rules req [tokenId] next := by
  have checked := Emitted.checked rules req tokenId
  have same := (grammarAfter_cons accepted []).2
  rw [checkFinished_running goesOn] at checked goesOn
  rw [same]
  exact ⟨checked.length, checked.outputIds, checked.finished, rfl, rfl, rfl, rfl⟩

theorem take_ne_nil {tokens : List α} (nonempty : tokens ≠ []) {count : Nat} (positive : 0 < count) :
    tokens.take count ≠ [] := by
  have long := List.length_pos_iff.mpr nonempty
  rw [← List.length_pos_iff, List.length_take]
  omega

/-- A path whose first token stops the request, or that has no other token. -/
theorem FirstStop.first {rest : List Int}
    (ends : rest ≠ [] → req.stopsAfter rules [tokenId] = true) :
    FirstStop rules req (tokenId :: rest) 1 where
  positive := Nat.one_pos
  within := by simp
  running := by
    intro emitted positive before
    omega
  stopped := by
    intro shorter
    rw [List.take_succ_cons, List.take_zero]
    exact ends (List.length_pos_iff.mp (by simpa using shorter))

theorem FirstStop.later
    (accepted : { req with outputIds := req.outputIds ++ [tokenId] }.acceptGrammarToken rules tokenId
      = .ok next) (goesOn : req.stopsAfter rules [tokenId] = false) {rest : List Int} {count : Nat}
    (stop : FirstStop rules next rest count) : FirstStop rules req (tokenId :: rest) (count + 1) where
  positive := Nat.succ_pos _
  within := Nat.succ_le_succ stop.within
  running := by
    have more : rest ≠ [] := List.length_pos_iff.mp (lt_of_lt_of_le stop.positive stop.within)
    intro emitted positive before
    cases emitted with
    | zero => omega
    | succ earlier =>
      rw [List.take_succ_cons]
      rcases Nat.eq_zero_or_pos earlier with rfl | later
      · rw [List.take_zero]
        exact goesOn
      · rw [stopsAfter_cons accepted (take_ne_nil more later)]
        exact stop.running earlier later (by omega)
  stopped := by
    have more : rest ≠ [] := List.length_pos_iff.mp (lt_of_lt_of_le stop.positive stop.within)
    intro shorter
    rw [List.take_succ_cons, stopsAfter_cons accepted (take_ne_nil more stop.positive)]
    exact stop.stopped (by simpa using shorter)

theorem Refused.later
    (accepted : { req with outputIds := req.outputIds ++ [tokenId] }.acceptGrammarToken rules tokenId
      = .ok next) (goesOn : req.stopsAfter rules [tokenId] = false) {rest : List Int}
    {message : RuntimeError} (refused : Refused rules next rest message) :
    Refused rules req (tokenId :: rest) message := by
  obtain ⟨last, inside, moved, running⟩ := refused
  have more : rest ≠ [] := List.length_pos_iff.mp (by omega)
  refine ⟨last + 1, by simpa using inside, ?_, ?_⟩
  · rw [List.take_succ_cons]
    exact (grammarAfter_cons accepted _).1.trans moved
  · intro emitted positive before
    cases emitted with
    | zero => omega
    | succ earlier =>
      rw [List.take_succ_cons]
      rcases Nat.eq_zero_or_pos earlier with rfl | later
      · rw [List.take_zero]
        exact goesOn
      · rw [stopsAfter_cons accepted (take_ne_nil more later)]
        exact running earlier later (by omega)

/-- What emitting a path can leave: the tokens up to the first stop, or a token that the grammar
refuses while the request goes on. -/
theorem emitTokens_cases {path : List Int} (nonempty : path ≠ []) (req : DecodingReq G) :
    (∃ emission, emitTokens rules path req = .ok emission ∧
      FirstStop rules req path emission.acceptedThisReq ∧
      Emitted rules req (path.take emission.acceptedThisReq) emission.req ∧
      (emission.hasFinished = false → emission.acceptedThisReq = path.length)) ∨
    ∃ message, emitTokens rules path req = .error message ∧ Refused rules req path message := by
  induction path generalizing req with
  | nil => exact absurd rfl nonempty
  | cons tokenId rest ih =>
    rw [emitTokens]
    split
    next stops =>
      refine .inl ⟨_, rfl, FirstStop.first fun _ => stops, ?_, fun goes => absurd goes (by simp)⟩
      exact Emitted.checked rules req tokenId
    next goesOn =>
      rw [Bool.not_eq_true] at goesOn
      have first : req.stopsAfter rules [tokenId] = false := goesOn
      rw [checkFinished_running goesOn]
      cases accepted : { req with outputIds := req.outputIds ++ [tokenId] }.acceptGrammarToken rules tokenId with
      | error message =>
        have moved := grammarAfter_refused accepted
        refine .inr ⟨message, rfl, 0, by simp, moved, ?_⟩
        intro emitted positive before
        obtain rfl : emitted = 1 := by omega
        exact first
      | ok next =>
        by_cases more : rest = []
        · subst more
          refine .inl ⟨_, rfl, FirstStop.first fun others => absurd rfl others, ?_, fun _ => rfl⟩
          exact Emitted.accepted goesOn accepted
        · rcases ih more next with
            ⟨following, others, stop, emitted, whole⟩ | ⟨message, others, refused⟩
          · refine .inl ⟨{ following with acceptedThisReq := following.acceptedThisReq + 1 },
              by simp [others, bind, Except.bind, pure, Except.pure],
              FirstStop.later accepted first stop, ?_, fun goes => ?_⟩
            · rw [List.take_succ_cons]
              exact Emitted.cons accepted (take_ne_nil more stop.positive) emitted
            · exact congrArg Nat.succ (whole goes)
          · exact .inr ⟨message, by simp [others, bind, Except.bind],
              Refused.later accepted first refused⟩

end emission

section requests

/-- A request after its path was emitted and its counters were raised. -/
structure Filling (rules : StopRules G) (req : DecodingReq G) (path : List Int)
    (after : DecodingReq G) (count : Nat) : Prop where
  stop : FirstStop rules req path count
  emitted : ∃ emitted, Emitted rules req (path.take count) emitted ∧ after = { emitted with
    specVerifyCt := emitted.specVerifyCt + 1
    specAcceptedTokens := emitted.specAcceptedTokens + (path.length - 1) }

/-- Emitting the paths of all requests emits each path from its own request, or some grammar refuses
a token of its path. -/
theorem emitRequests_cases (verifiedIds : List Int) (offset : Nat) (reqs : List (DecodingReq G))
    (paths : List (List Int)) (count : reqs.length = paths.length)
    (follows : verifiedIds.drop offset = paths.flatten) (nonempty : ∀ path ∈ paths, path ≠ []) :
    (∃ emissions, emitRequests rules verifiedIds offset (reqs.zip (paths.map List.length)) = .ok emissions ∧
      emissions.reqs.length = reqs.length ∧ emissions.finalPathLens.length = reqs.length ∧
      (∀ (position : Nat) (req : DecodingReq G) (path : List Int), reqs[position]? = some req →
        paths[position]? = some path → ∃ after count, emissions.reqs[position]? = some after ∧
          emissions.finalPathLens[position]? = some count ∧ Filling rules req path after count) ∧
      (emissions.hasFinished = false → emissions.finalPathLens = paths.map List.length)) ∨
    ∃ message, emitRequests rules verifiedIds offset (reqs.zip (paths.map List.length)) = .error message ∧
      ∃ (position : Nat) (req : DecodingReq G) (path : List Int), reqs[position]? = some req ∧
        paths[position]? = some path ∧ Refused rules req path message := by
  induction reqs generalizing offset paths with
  | nil =>
    obtain rfl := List.length_eq_zero_iff.mp count.symm
    exact .inl ⟨⟨[], [], false⟩, rfl, rfl, rfl, by simp, fun _ => rfl⟩
  | cons req reqs ih =>
    obtain _ | ⟨path, paths⟩ := paths
    · simp at count
    · have own : (verifiedIds.drop offset).take path.length = path := by simp [follows]
      have next : verifiedIds.drop (offset + path.length) = paths.flatten := by
        rw [← List.drop_drop, follows, List.flatten_cons, List.drop_left]
      rw [List.map_cons, List.zip_cons_cons, emitRequests, own]
      rcases emitTokens_cases (nonempty path List.mem_cons_self) req with
        ⟨emission, emits, stop, emitted, whole⟩ | ⟨message, refuses, refused⟩
      · rcases ih (offset + path.length) paths (by simpa using count) next
            (fun other member => nonempty other (List.mem_cons_of_mem _ member)) with
          ⟨others, ran, reqCount, lenCount, each, unfinished⟩ | ⟨message, refuses, position, other⟩
        · rw [emits]
          simp only [ran, bind, Except.bind]
          refine .inl ⟨_, rfl, congrArg Nat.succ reqCount, congrArg Nat.succ lenCount, ?_, ?_⟩
          · intro position request requestPath reqRead pathRead
            cases position with
            | zero =>
              obtain rfl := Option.some.inj reqRead
              obtain rfl := Option.some.inj pathRead
              exact ⟨_, _, rfl, rfl, stop, emission.req, emitted, rfl⟩
            | succ position => exact each position request requestPath reqRead pathRead
          · intro goes
            obtain ⟨here, later⟩ := Bool.or_eq_false_iff.mp goes
            exact congrArg₂ List.cons (whole here) (unfinished later)
        · obtain ⟨request, requestPath, reqRead, pathRead, refused⟩ := other
          rw [emits]
          simp only [refuses, bind, Except.bind]
          exact .inr ⟨message, rfl, position + 1, request, requestPath, reqRead, pathRead, refused⟩
      · rw [refuses]
        exact .inr ⟨message, rfl, 0, req, path, rfl, rfl, refused⟩

end requests

section rows

/-- A row of node indices: a path from the root, then padding. -/
def padRow (capacity : Nat) (path : List Nat) : List Int :=
  path.map Int.ofNat ++ List.replicate (capacity - path.length) (-1)

/-- The first nodes of each path. -/
def cutPaths (nodes : List (List Nat)) (counts : List Nat) : List (List Nat) :=
  List.zipWith (fun path count => path.take count) nodes counts

theorem compactIndex_eq (acceptIndex : List (List Int)) :
    compactIndex acceptIndex =
      (acceptIndex.map (fun row => (row.filter (· ≠ -1)).map Int.toNat)).flatten := by
  unfold compactIndex
  rw [List.filter_flatten, List.map_flatten, List.map_map]
  rfl

/-- Cutting a row at a length and dropping the padding leaves the first nodes. -/
theorem cut_padRow (path : List Nat) (padding count : Nat) :
    (((path.map Int.ofNat ++ List.replicate padding (-1)).mapIdx
      (fun position node => if count ≤ position then -1 else node)).filter (· ≠ -1)).map Int.toNat =
      path.take count := by
  induction path generalizing count with
  | nil =>
    rw [List.take_nil, List.map_eq_nil_iff, List.filter_eq_nil_iff]
    intro node member
    obtain ⟨position, inside, rfl⟩ := List.mem_mapIdx.mp member
    simp
  | cons node path ih =>
    rw [List.map_cons, List.cons_append, List.mapIdx_cons]
    cases count with
    | zero =>
      have rest := ih 0
      simp only [Nat.zero_le, if_true, List.take_zero] at rest ⊢
      exact rest
    | succ count =>
      simp only [Nat.add_le_add_iff_right]
      rw [List.filter_cons_of_pos (by simp), List.map_cons, ih count,
        List.take_succ_cons]
      rfl

/-- The compact indices of the cut rows are the first nodes of each path, one path after the
other. -/
theorem compactIndex_truncatePaths (capacity : Nat) (nodes : List (List Nat)) (counts : List Nat) :
    compactIndex (truncatePaths (nodes.map (padRow capacity)) counts) =
      (cutPaths nodes counts).flatten := by
  rw [compactIndex_eq]
  congr 1
  unfold truncatePaths cutPaths
  rw [List.zipWith_map_left, List.map_zipWith]
  congr 1
  funext path count
  exact cut_padRow path _ count

theorem cutPaths_length (nodes : List (List Nat)) : cutPaths nodes (nodes.map List.length) = nodes := by
  unfold cutPaths
  rw [List.zipWith_map_right, List.zipWith_self]
  simp

/-- The compact indices of the rows are the paths one after the other. -/
theorem compactIndex_padRow (capacity : Nat) (nodes : List (List Nat)) :
    compactIndex (nodes.map (padRow capacity)) = nodes.flatten := by
  have rowwise (path : List Nat) :
      ((padRow capacity path).filter (· ≠ -1)).map Int.toNat = path := by
    have kept : (path.map Int.ofNat).filter (· ≠ -1) = path.map Int.ofNat :=
      List.filter_eq_self.mpr (by simp)
    have restored : (path.map Int.ofNat).map Int.toNat = path := by
      rw [List.map_map]
      exact List.map_id path
    rw [padRow, List.filter_append, kept, List.map_append, restored]
    simp
  have all : (nodes.map (padRow capacity)).map (fun row => (row.filter (· ≠ -1)).map Int.toNat) =
      nodes := by
    rw [List.map_map]
    exact (List.map_congr_left (fun path _ => rowwise path)).trans (List.map_id nodes)
  rw [compactIndex_eq, all]

theorem evictMask_eq (draftTokens : Nat) (acceptIndex : List Nat) :
    evictMask draftTokens acceptIndex =
      (List.range draftTokens).map (fun node => decide (node ∉ acceptIndex)) := by
  have cleared (mask : List Bool) : acceptIndex.foldl (fun mask node => mask.set node false) mask =
      mask.mapIdx (fun node kept => kept && decide (node ∉ acceptIndex)) := by
    induction acceptIndex generalizing mask with
    | nil => exact List.ext_getElem (by simp) fun node low high => by simp
    | cons accepted acceptIndex ih =>
      rw [List.foldl_cons, ih]
      refine List.ext_getElem (by simp) fun node low high => ?_
      simp only [List.getElem_mapIdx, List.getElem_set, List.mem_cons, not_or]
      by_cases same : accepted = node
      · simp [same]
      · simp [same, Ne.symm same]
  rw [evictMask, cleared]
  refine List.ext_getElem (by simp) fun node low high => by simp

/-- The entries under the mask are those of the nodes that are not accepted. -/
theorem selectMask_evictMask (acceptIndex : List Nat) (entries : List α) :
    selectMask (evictMask entries.length acceptIndex) entries = .ok (dropped acceptIndex entries) := by
  have indexed : ((evictMask entries.length acceptIndex).zip entries).map
      (fun entry => if entry.1 then some entry.2 else none) =
      (List.range entries.length).map
        (fun node => if node ∉ acceptIndex then entries[node]? else none) := by
    rw [evictMask_eq]
    refine List.ext_getElem (by simp) fun node low high => ?_
    have inside : node < entries.length := by simpa using high
    simp [List.getElem?_eq_getElem inside]
  have selected := congrArg (List.filterMap id) indexed
  rw [List.filterMap_map, List.filterMap_map, Function.id_comp, Function.id_comp] at selected
  rw [selectMask, if_pos (by simp [evictMask_eq]), selected, dropped, gather, List.filterMap_filter]
  simp only [decide_eq_true_eq]

theorem indexRows_inside {indices : List Nat} (entries : List α)
    (inside : ∀ index ∈ indices, index < entries.length) :
    indexRows indices entries = .ok (gather indices entries) :=
  if_pos (by simpa using inside)

theorem gather_flatten (nodes : List (List Nat)) (entries : List α) :
    gather nodes.flatten entries = (nodes.map (fun path => gather path entries)).flatten := by
  unfold gather
  rw [List.filterMap_flatten]

theorem mem_cutPaths {nodes : List (List Nat)} {counts : List Nat} {node : Nat}
    (member : node ∈ (cutPaths nodes counts).flatten) : ∃ path ∈ nodes, node ∈ path := by
  obtain ⟨cut, cutMember, inCut⟩ := List.mem_flatten.mp member
  rw [cutPaths, ← List.map_uncurry_zip_eq_zipWith] at cutMember
  obtain ⟨pair, paired, rfl⟩ := List.mem_map.mp cutMember
  exact ⟨pair.1, (List.of_mem_zip paired).1, List.mem_of_mem_take inCut⟩

/-- Rows assigned from segments one after the other read their own segment. -/
theorem assignReqToTokenPool_row {reqPoolIndices : List Nat} (distinct : reqPoolIndices.Nodup)
    (seqLens : List Nat) (segments : List (List Nat)) (table : ReqToToken)
    {position reqPoolIdx seqLen : Nat} {segment : List Nat}
    (rowRead : reqPoolIndices[position]? = some reqPoolIdx) (lenRead : seqLens[position]? = some seqLen)
    (segmentRead : segments[position]? = some segment) :
    (List.range segment.length).map (fun step => assignReqToTokenPool
      (reqPoolIndices.zip (List.zipWith (fun seqLen segment => (seqLen, seqLen + segment.length)) seqLens segments))
      segments.flatten table reqPoolIdx (seqLen + step)) = segment := by
  induction reqPoolIndices generalizing seqLens segments table position with
  | nil => simp at rowRead
  | cons own reqPoolIndices ih =>
    obtain _ | ⟨ownLen, seqLens⟩ := seqLens
    · simp at lenRead
    obtain _ | ⟨ownSegment, segments⟩ := segments
    · simp at segmentRead
    rw [List.nodup_cons] at distinct
    rw [List.zipWith_cons_cons, List.zip_cons_cons, List.flatten_cons]
    simp only [assignReqToTokenPool]
    rw [Nat.add_sub_cancel_left, List.drop_left]
    cases position with
    | succ position => exact ih distinct.2 _ _ _ rowRead lenRead segmentRead
    | zero =>
      obtain rfl := Option.some.inj rowRead
      obtain rfl := Option.some.inj lenRead
      obtain rfl := Option.some.inj segmentRead
      have other : ∀ range ∈ reqPoolIndices.zip (List.zipWith
          (fun seqLen segment => (seqLen, seqLen + segment.length)) seqLens segments), range.1 ≠ own :=
        fun range member here => distinct.1 (here ▸ (List.of_mem_zip member).1)
      have kept := assignReqToTokenPool_other own other
      refine List.ext_getElem (by simp) fun step low high => ?_
      rw [List.getElem_map, List.getElem_range, kept]
      simp [high, List.getElem?_append_left high]

end rows

section aligned

variable {capacity : Nat} {nodes : List (List Nat)} {paths : AcceptedPaths}
  {logitsOutput : LogitsOutput T} {draftToken : List Int} {batch : VerifyBatch G}

/-- The accepted paths of a batch: each row starts with the nodes of a path from the root and is
padded, and the accepted length leaves the bonus token out. -/
structure AcceptedPaths.Holds (paths : AcceptedPaths) (capacity : Nat) (nodes : List (List Nat))
    (total : Nat) : Prop where
  acceptIndex : paths.acceptIndex = nodes.map (padRow capacity)
  acceptLength : paths.acceptLength = nodes.map (fun path => path.length - 1)
  nonempty : ∀ path ∈ nodes, path ≠ []
  inside : ∀ path ∈ nodes, ∀ node ∈ path, node < total
  predicted : total ≤ paths.predict.length

/-- The batch has one entry per request in each of its fields, and one slot per draft token. -/
structure VerifyBatch.Shaped (batch : VerifyBatch G) (draftToken : List Int)
    (logitsOutput : LogitsOutput T) (size : Nat) : Prop where
  reqs : batch.reqs.length = size
  reqPoolIndices : batch.reqPoolIndices.length = size
  seqLens : batch.seqLens.length = size
  seqLensCpu : batch.seqLensCpu.length = size
  outCacheLoc : batch.outCacheLoc.length = draftToken.length
  nextTokenLogits : logitsOutput.nextTokenLogits.length = draftToken.length
  hiddenStates : ∀ hiddenStates ∈ logitsOutput.hiddenStates, hiddenStates.length = draftToken.length

/-- The rows of the forward along some nodes. -/
def LogitsOutput.along (logitsOutput : LogitsOutput T) (indices : List Nat) : LogitsOutput T where
  nextTokenLogits := gather indices logitsOutput.nextTokenLogits
  hiddenStates := logitsOutput.hiddenStates.map (gather indices)

theorem gatherPaths_inside (shaped : batch.Shaped draftToken logitsOutput nodes.length)
    {acceptIndex : List Nat} (inside : ∀ node ∈ acceptIndex, node < draftToken.length)
    (verifiedId : List Int) (reqs : List (DecodingReq G)) (acceptLength : List Nat)
    (acceptLensCpu : Option (List Nat)) :
    gatherPaths verifiedId logitsOutput reqs acceptIndex acceptLength acceptLensCpu =
      .ok ⟨reqs, acceptIndex, acceptLength, verifiedId, logitsOutput.along acceptIndex, acceptLensCpu⟩ := by
  have logits := indexRows_inside logitsOutput.nextTokenLogits
    (fun node member => shaped.nextTokenLogits.symm ▸ inside node member)
  unfold gatherPaths
  rw [logits]
  cases present : logitsOutput.hiddenStates with
  | none => simp [LogitsOutput.along, present, bind, Except.bind, pure, Except.pure]
  | some hiddenStates =>
    have hidden := indexRows_inside hiddenStates
      (fun node member => (shaped.hiddenStates hiddenStates present).symm ▸ inside node member)
    simp [LogitsOutput.along, present, hidden, bind, Except.bind, pure, Except.pure]

/-- What filling the requests can leave: paths cut where each request stopped, and everything
gathered along them, or a refused token. -/
theorem fillRequests_cases (holds : paths.Holds capacity nodes draftToken.length)
    (shaped : batch.Shaped draftToken logitsOutput nodes.length) :
    (∃ reqs counts, fillRequests rules false batch.reqs paths logitsOutput =
        .ok ⟨reqs, (cutPaths nodes counts).flatten, counts.map (· - 1),
          gather (cutPaths nodes counts).flatten paths.predict,
          logitsOutput.along (cutPaths nodes counts).flatten, some counts⟩ ∧
      reqs.length = nodes.length ∧ counts.length = nodes.length ∧
      ∀ (position : Nat) (req : DecodingReq G) (path : List Nat), batch.reqs[position]? = some req →
        nodes[position]? = some path → ∃ after count, reqs[position]? = some after ∧
          counts[position]? = some count ∧ Filling rules req (gather path paths.predict) after count) ∨
    ∃ message, fillRequests rules false batch.reqs paths logitsOutput = .error message ∧
      ∃ (position : Nat) (req : DecodingReq G) (path : List Nat), batch.reqs[position]? = some req ∧
        nodes[position]? = some path ∧ Refused rules req (gather path paths.predict) message := by
  have read : ∀ path ∈ nodes, ∀ node ∈ path, node < paths.predict.length :=
    fun path member node inPath => lt_of_lt_of_le (holds.inside path member node inPath) holds.predicted
  have lengths : (nodes.map (fun path => gather path paths.predict)).map List.length =
      nodes.map List.length := by
    rw [List.map_map]
    exact List.map_congr_left fun path member => gather_length _ _ (read path member)
  have pathLens : paths.acceptLength.map (· + 1) =
      (nodes.map (fun path => gather path paths.predict)).map List.length := by
    rw [lengths, holds.acceptLength, List.map_map]
    exact List.map_congr_left fun path member =>
      Nat.sub_add_cancel (List.length_pos_iff.mpr (holds.nonempty path member))
  have compact : compactIndex paths.acceptIndex = nodes.flatten := by
    rw [holds.acceptIndex, compactIndex_padRow]
  have indexed : indexRows nodes.flatten paths.predict =
      .ok (nodes.map (fun path => gather path paths.predict)).flatten := by
    rw [← gather_flatten]
    refine indexRows_inside _ fun node member => ?_
    obtain ⟨path, pathMember, inPath⟩ := List.mem_flatten.mp member
    exact read path pathMember node inPath
  have nonempty : ∀ tokens ∈ nodes.map (fun path => gather path paths.predict), tokens ≠ [] := by
    intro tokens member
    obtain ⟨path, pathMember, rfl⟩ := List.mem_map.mp member
    rw [← List.length_pos_iff, gather_length _ _ (read path pathMember)]
    exact List.length_pos_iff.mpr (holds.nonempty path pathMember)
  unfold fillRequests
  dsimp only
  rw [compact, indexed, pathLens]
  simp only [bind, Except.bind, Bool.false_eq_true, if_false]
  rcases emitRequests_cases (nodes.map (fun path => gather path paths.predict)).flatten 0 batch.reqs
      (nodes.map (fun path => gather path paths.predict)) (by simpa using shaped.reqs) rfl nonempty with
    ⟨emissions, emits, reqCount, lenCount, each, unfinished⟩ | ⟨message, refuses, other⟩
  · rw [emits]
    refine .inl ⟨emissions.reqs, emissions.finalPathLens, ?_, reqCount.trans shaped.reqs,
      lenCount.trans shaped.reqs, ?_⟩
    · have cutInside : ∀ node ∈ (cutPaths nodes emissions.finalPathLens).flatten,
          node < draftToken.length := by
        intro node member
        obtain ⟨path, pathMember, inPath⟩ := mem_cutPaths member
        exact holds.inside path pathMember node inPath
      cases finished : emissions.hasFinished with
      | true =>
        have compactCut := compactIndex_truncatePaths capacity nodes emissions.finalPathLens
        have indexedCut := indexRows_inside paths.predict
          (fun node member => lt_of_lt_of_le (cutInside node member) holds.predicted)
        rw [← holds.acceptIndex] at compactCut
        simp only [finished, compactCut, indexedCut, if_true]
        exact gatherPaths_inside shaped cutInside _ _ _ _
      | false =>
        have counts := unfinished finished
        rw [lengths] at counts
        have cut : cutPaths nodes emissions.finalPathLens = nodes := by rw [counts, cutPaths_length]
        have shortened : emissions.finalPathLens.map (· - 1) = paths.acceptLength := by
          rw [counts, holds.acceptLength, List.map_map]
          rfl
        rw [cut] at cutInside ⊢
        rw [shortened, counts, ← lengths, gather_flatten]
        simp only [finished, Bool.false_eq_true, if_false]
        exact gatherPaths_inside shaped cutInside _ _ _ _
    · intro position req path reqRead pathRead
      exact each position req _ reqRead (by rw [List.getElem?_map, pathRead, Option.map_some])
  · obtain ⟨position, req, tokens, reqRead, tokensRead, refused⟩ := other
    rw [List.getElem?_map, Option.map_eq_some_iff] at tokensRead
    obtain ⟨path, pathRead, rfl⟩ := tokensRead
    rw [refuses]
    exact .inr ⟨message, rfl, position, req, path, reqRead, pathRead, refused⟩

/-- A request after the verification of its path: it emitted the tokens up to the first stop, and
its cache lengths cover them. -/
structure Advanced (rules : StopRules G) (req : DecodingReq G) (tokens : List Int) (count : Nat)
    (after : DecodingReq G) : Prop where
  stop : FirstStop rules req tokens count
  length : after.outputIds.length = req.outputIds.length + count
  outputIds : (∀ tokenId ∈ tokens, 0 ≤ tokenId ∧ tokenId ≤ req.vocabSize) →
    after.outputIds = req.outputIds ++ tokens.take count
  finished : after.finished = req.stopsAfter rules (tokens.take count)
  kvCommittedLen : after.kvCommittedLen = req.kvCommittedLen + count
  kvAllocatedLen : after.kvAllocatedLen = after.kvCommittedLen
  specVerifyCt : after.specVerifyCt = req.specVerifyCt + 1
  specAcceptedTokens : after.specAcceptedTokens = req.specAcceptedTokens + (tokens.length - 1)

/-- A verified batch: with the paths cut where the requests stopped, every request advanced by its
own path, everything is gathered along the paths one after the other, and the slots of all other
nodes are returned. -/
structure PathsAligned (rules : StopRules G) (nodes : List (List Nat)) (paths : AcceptedPaths)
    (logitsOutput : LogitsOutput T) (batch : VerifyBatch G) (result : VerifyResult G T)
    (counts : List Nat) : Prop where
  requests : ∀ (position : Nat) (req : DecodingReq G) (path : List Nat),
    batch.reqs[position]? = some req → nodes[position]? = some path → ∃ after count,
      result.batch.reqs[position]? = some after ∧ counts[position]? = some count ∧
        Advanced rules req (gather path paths.predict) count after
  acceptLensCpu : result.acceptLensCpu = counts
  seqLens : result.batch.seqLens = List.zipWith (· + ·) batch.seqLens counts
  seqLensCpu : result.batch.seqLensCpu = List.zipWith (· + ·) batch.seqLensCpu counts
  acceptIndex : result.acceptIndex = (cutPaths nodes counts).flatten
  verifiedId : result.verifiedId =
    ((cutPaths nodes counts).map (fun path => gather path paths.predict)).flatten
  nextTokenLogits : result.logitsOutput.nextTokenLogits =
    ((cutPaths nodes counts).map (fun path => gather path logitsOutput.nextTokenLogits)).flatten
  hiddenStates : result.logitsOutput.hiddenStates = logitsOutput.hiddenStates.map
    (fun hiddenStates => ((cutPaths nodes counts).map (fun path => gather path hiddenStates)).flatten)
  outCacheLoc : result.batch.outCacheLoc =
    ((cutPaths nodes counts).map (fun path => gather path batch.outCacheLoc)).flatten
  freed : result.batch.allocator.held.Perm
    (batch.allocator.held ++ dropped (cutPaths nodes counts).flatten batch.outCacheLoc)
  rows : batch.reqPoolIndices.Nodup → ∀ (position reqPoolIdx seqLen : Nat) (path : List Nat) (count : Nat),
    batch.reqPoolIndices[position]? = some reqPoolIdx → batch.seqLens[position]? = some seqLen →
      nodes[position]? = some path → counts[position]? = some count →
        (List.range count).map (fun step => result.batch.reqToToken reqPoolIdx (seqLen + step)) =
          gather (path.take count) batch.outCacheLoc

theorem cutPaths_lengths {counts : List Nat} (count : counts.length = nodes.length)
    (within : ∀ (position count : Nat) (path : List Nat), nodes[position]? = some path →
      counts[position]? = some count → count ≤ path.length) :
    (cutPaths nodes counts).map List.length = counts := by
  refine List.ext_getElem (by simp [cutPaths, count]) fun position low high => ?_
  have inNodes : position < nodes.length := by omega
  have fits := within position counts[position] nodes[position] (List.getElem?_eq_getElem inNodes)
    (List.getElem?_eq_getElem high)
  simp only [cutPaths, List.getElem_map, List.getElem_zipWith, List.length_take]
  omega

/-- Advancing by a length without the bonus token and one more. -/
theorem zipWith_bonus {β : Type} (change : α → Nat → β) (entries : List α) {counts : List Nat}
    (positive : ∀ count ∈ counts, 0 < count) :
    List.zipWith (fun entry accepted => change entry (accepted + 1)) entries (counts.map (· - 1)) =
      List.zipWith change entries counts := by
  have restored : (counts.map (· - 1)).map (· + 1) = counts := by
    rw [List.map_map]
    refine (List.map_congr_left fun count member => ?_).trans (List.map_id counts)
    exact Nat.sub_add_cancel (positive count member)
  conv_rhs => rw [← restored]
  simp only [List.zipWith_map_right]

theorem freeCache_inside (shaped : batch.outCacheLoc.length = draftToken.length)
    {acceptIndex : List Nat} (inside : ∀ node ∈ acceptIndex, node < draftToken.length)
    (acceptLength acceptLengthCpu : List Nat) :
    freeCache draftToken acceptIndex acceptLength acceptLengthCpu batch = .ok { batch with
      allocator := batch.allocator.free (dropped acceptIndex batch.outCacheLoc)
      outCacheLoc := gather acceptIndex batch.outCacheLoc
      reqs := List.zipWith (fun req accepted => { req with
        kvCommittedLen := req.kvCommittedLen + (accepted + 1)
        kvAllocatedLen := req.kvCommittedLen + (accepted + 1) }) batch.reqs acceptLengthCpu
      reqToToken := assignReqToTokenPool (batch.reqPoolIndices.zip
        (List.zipWith (fun seqLen accepted => (seqLen, seqLen + accepted + 1)) batch.seqLens
          acceptLength)) (gather acceptIndex batch.outCacheLoc) batch.reqToToken } := by
  have freed := selectMask_evictMask acceptIndex batch.outCacheLoc
  have kept := indexRows_inside batch.outCacheLoc
    (fun node member => shaped.symm ▸ inside node member)
  unfold freeCache
  rw [← shaped, freed, kept]
  rfl

/-- The cache lengths of a request cover some more tokens. -/
def covering (req : DecodingReq G) (count : Nat) : DecodingReq G :=
  { req with kvCommittedLen := req.kvCommittedLen + count, kvAllocatedLen := req.kvCommittedLen + count }

/-- A filled request whose cache lengths cover what it emitted has advanced. -/
theorem Filling.advanced {req after : DecodingReq G} {tokens : List Int} {count : Nat}
    (filling : Filling rules req tokens after count) :
    Advanced rules req tokens count (covering after count) := by
  obtain ⟨emitted, leaves, rfl⟩ := filling.emitted
  have taken : (tokens.take count).length = count := by
    rw [List.length_take, Nat.min_eq_left filling.stop.within]
  exact {
    stop := filling.stop
    length := leaves.length.trans (by rw [taken])
    outputIds := fun vocabulary =>
      leaves.outputIds fun tokenId member => vocabulary tokenId (List.mem_of_mem_take member)
    finished := leaves.finished
    kvCommittedLen := congrArg (· + count) leaves.kvCommittedLen
    kvAllocatedLen := rfl
    specVerifyCt := congrArg (· + 1) leaves.specVerifyCt
    specAcceptedTokens := congrArg (· + (tokens.length - 1)) leaves.specAcceptedTokens }

/-- The result of a verification whose requests stop at the given lengths. -/
def verified (paths : AcceptedPaths) (logitsOutput : LogitsOutput T) (batch : VerifyBatch G)
    (reqs : List (DecodingReq G)) (acceptIndex counts : List Nat) : VerifyResult G T where
  batch := { batch with
    reqs := List.zipWith covering reqs counts
    allocator := batch.allocator.free (dropped acceptIndex batch.outCacheLoc)
    outCacheLoc := gather acceptIndex batch.outCacheLoc
    reqToToken := assignReqToTokenPool (batch.reqPoolIndices.zip
      (List.zipWith (fun seqLen count => (seqLen, seqLen + count)) batch.seqLens counts))
      (gather acceptIndex batch.outCacheLoc) batch.reqToToken
    seqLens := List.zipWith (· + ·) batch.seqLens counts
    seqLensCpu := List.zipWith (· + ·) batch.seqLensCpu counts }
  acceptIndex := acceptIndex
  verifiedId := gather acceptIndex paths.predict
  logitsOutput := logitsOutput.along acceptIndex
  acceptLensCpu := counts

/-- After the verification each row maps the positions its request advanced by to the slots of the
cut path. -/
theorem verified_rows {counts : List Nat} {reqs : List (DecodingReq G)}
    (inside : ∀ node ∈ (cutPaths nodes counts).flatten, node < batch.outCacheLoc.length)
    (lengths : (cutPaths nodes counts).map List.length = counts)
    (distinct : batch.reqPoolIndices.Nodup) {position reqPoolIdx seqLen count : Nat} {path : List Nat}
    (rowRead : batch.reqPoolIndices[position]? = some reqPoolIdx)
    (lenRead : batch.seqLens[position]? = some seqLen) (pathRead : nodes[position]? = some path)
    (countRead : counts[position]? = some count) :
    (List.range count).map (fun step => (verified paths logitsOutput batch reqs
      (cutPaths nodes counts).flatten counts).batch.reqToToken reqPoolIdx (seqLen + step)) =
        gather (path.take count) batch.outCacheLoc := by
  have segmentLengths : ((cutPaths nodes counts).map
      (fun cut => gather cut batch.outCacheLoc)).map List.length = counts := by
    rw [List.map_map]
    conv_rhs => rw [← lengths]
    refine List.map_congr_left fun cut member => gather_length _ _ fun node inCut => ?_
    exact inside node (List.mem_flatten.mpr ⟨cut, member, inCut⟩)
  have cutRead : (cutPaths nodes counts)[position]? = some (path.take count) :=
    List.getElem?_zipWith_eq_some.mpr ⟨path, count, pathRead, countRead, rfl⟩
  have segmentRead : ((cutPaths nodes counts).map (fun cut => gather cut batch.outCacheLoc))[position]? =
      some (gather (path.take count) batch.outCacheLoc) := by
    rw [List.getElem?_map, cutRead, Option.map_some]
  have segmentCount : (gather (path.take count) batch.outCacheLoc).length = count := by
    have here := congrArg (fun lengths => lengths[position]?) segmentLengths
    rw [List.getElem?_map, segmentRead, countRead] at here
    exact Option.some.inj here
  have ranges : List.zipWith (fun seqLen segment => (seqLen, seqLen + segment.length)) batch.seqLens
      ((cutPaths nodes counts).map (fun cut => gather cut batch.outCacheLoc)) =
      List.zipWith (fun seqLen count => (seqLen, seqLen + count)) batch.seqLens counts := by
    conv_rhs => rw [← segmentLengths, List.zipWith_map_right]
  have assigned := assignReqToTokenPool_row distinct batch.seqLens _ batch.reqToToken rowRead
    lenRead segmentRead
  rw [segmentCount, ← gather_flatten, ranges] at assigned
  exact assigned

theorem verify_eq {reqs : List (DecodingReq G)} {acceptIndex counts : List Nat}
    (outCacheLoc : batch.outCacheLoc.length = draftToken.length)
    (inside : ∀ node ∈ acceptIndex, node < draftToken.length) (positive : ∀ count ∈ counts, 0 < count)
    (filled : fillRequests rules false batch.reqs paths logitsOutput = .ok ⟨reqs, acceptIndex,
      counts.map (· - 1), gather acceptIndex paths.predict, logitsOutput.along acceptIndex,
      some counts⟩) :
    verify rules false draftToken paths logitsOutput batch =
      .ok (verified paths logitsOutput batch reqs acceptIndex counts) := by
  rw [verify, filled]
  simp only [bind, Except.bind, Bool.false_eq_true, if_false, Option.getD_some]
  rw [freeCache_inside (by exact outCacheLoc) inside]
  unfold verified
  rw [← zipWith_bonus covering reqs positive, ← zipWith_bonus (· + ·) batch.seqLens positive,
    ← zipWith_bonus (fun seqLen count => (seqLen, seqLen + count)) batch.seqLens positive]
  rfl

/-- Verification keeps tokens, paths and slots aligned: it fails only when the grammar of a
request refuses a token of its path, and otherwise there are lengths, one for each request, at which
the requests stop and by which everything advances. -/
theorem verify_aligned (holds : paths.Holds capacity nodes draftToken.length)
    (shaped : batch.Shaped draftToken logitsOutput nodes.length) :
    (∃ result counts, verify rules false draftToken paths logitsOutput batch = .ok result ∧
      PathsAligned rules nodes paths logitsOutput batch result counts) ∨
    ∃ message, verify rules false draftToken paths logitsOutput batch = .error message ∧
      ∃ (position : Nat) (req : DecodingReq G) (path : List Nat), batch.reqs[position]? = some req ∧
        nodes[position]? = some path ∧ Refused rules req (gather path paths.predict) message := by
  rcases fillRequests_cases holds shaped with
    ⟨reqs, counts, filled, reqCount, lenCount, each⟩ | ⟨message, refuses, other⟩
  · have count (position : Nat) (inside : position < nodes.length) :
        ∃ (req : DecodingReq G) (after : DecodingReq G),
          Filling rules req (gather nodes[position] paths.predict) after counts[position] := by
      have inReqs : position < batch.reqs.length := by rw [shaped.reqs]; exact inside
      obtain ⟨after, count, -, countRead, filling⟩ := each position _ _
        (List.getElem?_eq_getElem inReqs) (List.getElem?_eq_getElem inside)
      rw [List.getElem?_eq_getElem (by omega), Option.some.injEq] at countRead
      exact ⟨_, after, countRead ▸ filling⟩
    have positive : ∀ count ∈ counts, 0 < count := by
      intro length member
      obtain ⟨position, inside, rfl⟩ := List.mem_iff_getElem.mp member
      obtain ⟨req, after, filling⟩ := count position (by omega)
      exact filling.stop.positive
    have lengths : (cutPaths nodes counts).map List.length = counts := by
      refine cutPaths_lengths lenCount fun position length path pathRead lengthRead => ?_
      obtain ⟨inside, rfl⟩ := List.getElem?_eq_some_iff.mp pathRead
      obtain ⟨-, rfl⟩ := List.getElem?_eq_some_iff.mp lengthRead
      obtain ⟨req, after, filling⟩ := count position inside
      refine filling.stop.within.trans (le_of_eq (gather_length _ _ fun node member => ?_))
      exact lt_of_lt_of_le (holds.inside _ (List.getElem_mem inside) node member) holds.predicted
    have inside : ∀ node ∈ (cutPaths nodes counts).flatten, node < draftToken.length := by
      intro node member
      obtain ⟨path, pathMember, inPath⟩ := mem_cutPaths member
      exact holds.inside path pathMember node inPath
    refine .inl ⟨_, counts, verify_eq shaped.outCacheLoc inside positive filled, ?_⟩
    exact {
      requests := by
        intro position req path reqRead pathRead
        obtain ⟨after, count, afterRead, countRead, filling⟩ := each position req path reqRead pathRead
        exact ⟨covering after count, count, List.getElem?_zipWith_eq_some.mpr
          ⟨after, count, afterRead, countRead, rfl⟩, countRead, filling.advanced⟩
      acceptLensCpu := rfl
      seqLens := rfl
      seqLensCpu := rfl
      acceptIndex := rfl
      verifiedId := gather_flatten _ _
      nextTokenLogits := gather_flatten _ _
      hiddenStates := congrArg (fun rows => logitsOutput.hiddenStates.map rows)
        (funext fun hiddenStates => gather_flatten _ hiddenStates)
      outCacheLoc := gather_flatten _ _
      freed := TokenToKVPoolAllocator.held_free _ _
      rows := fun distinct _ _ _ _ _ => verified_rows
        (fun node member => shaped.outCacheLoc.symm ▸ inside node member) lengths distinct }
  · refine .inr ⟨message, ?_, other⟩
    simp [verify, refuses, bind, Except.bind]

end aligned

/-- A request without stop strings, grammar and tokenizer, with a token budget. -/
def budgeted (maxNewTokens kvLen : Nat) : DecodingReq Unit where
  outputIds := []
  decodedText := ""
  samplingParams := ⟨maxNewTokens, false, [], [], 0, [], 0⟩
  eosTokenIds := []
  tokenizer := none
  vocabSize := 100
  grammar := none
  toFinish := none
  finishedReason := none
  finishedLen := none
  specVerifyCt := 0
  specAcceptedTokens := 0
  kvCommittedLen := kvLen
  kvAllocatedLen := kvLen

/-- Rules for requests without text. -/
def plainRules : StopRules Unit := ⟨fun _ => "", fun _ _ => false, fun _ _ => .ok (), fun _ => false⟩

/-- Two requests, the first with room for one token. -/
def twoRequests : VerifyBatch Unit where
  reqs := [budgeted 1 3, budgeted 8 2]
  reqPoolIndices := [0, 1]
  seqLens := [3, 2]
  seqLensCpu := [3, 2]
  inputIds := []
  outCacheLoc := []
  reqToToken := fun _ _ => 0
  allocator := ⟨[10, 11, 12, 13, 14, 15, 16], [], false, true, []⟩

/-- Trees of three nodes; the first path is the second child, the second one the root alone. -/
def twoPaths : AcceptedPaths := ⟨[42, 0, 43, 44, 0, 0, 0], [[0, 2, -1], [3, -1, -1]], [1, 0]⟩

/-- The batch of two requests with the slots of their trees. -/
def twoPrepared : VerifyBatch Unit :=
  match prepareForVerify id [5, 6, 42, 7, 8, 9] 3 twoRequests with
  | .ok ready => ready
  | .error _ => twoRequests

/-- Verification of the two requests keeps everything aligned. -/
theorem verify_aligned_two :
    (∃ result counts, verify plainRules false [5, 6, 42, 7, 8, 9] twoPaths
        ⟨["a", "b", "c", "d", "e", "f"], none⟩ twoPrepared = .ok result ∧
      PathsAligned plainRules [[0, 2], [3]] twoPaths ⟨["a", "b", "c", "d", "e", "f"], none⟩ twoPrepared
        result counts) ∨
    ∃ message, verify plainRules false [5, 6, 42, 7, 8, 9] twoPaths
        ⟨["a", "b", "c", "d", "e", "f"], none⟩ twoPrepared = .error message ∧
      ∃ (position : Nat) (req : DecodingReq Unit) (path : List Nat),
        twoPrepared.reqs[position]? = some req ∧ [[0, 2], [3]][position]? = some path ∧
          Refused plainRules req (gather path twoPaths.predict) message :=
  verify_aligned (show twoPaths.Holds 3 [[0, 2], [3]] 6 from ⟨rfl, rfl, by decide, by decide, by decide⟩)
    ⟨rfl, rfl, rfl, rfl, rfl, rfl, by simp⟩

/-- After preparation has raised the allocated lengths, verification advances the allocated
length of the first request by one less than the tokens it emitted. -/
theorem allocated_lags :
    ∃ result, verify plainRules false [5, 6, 42, 7, 8, 9] twoPaths
        ⟨["a", "b", "c", "d", "e", "f"], none⟩ twoPrepared = .ok result ∧
      result.batch.reqs.map DecodingReq.kvAllocatedLen ≠ List.zipWith (· + ·)
        (twoPrepared.reqs.map DecodingReq.kvAllocatedLen) result.acceptLensCpu :=
  ⟨_, rfl, by decide⟩

end SpecBlock.Serving
