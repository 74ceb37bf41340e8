import SpecBlock.Serving.OverlapSlots

/-!
# Which accepted paths the overlap worker commits

With its allocation topped up, the window of a request's tree lies in slots of its own, so
the entries of the nodes are all there after the forward. The row then maps the accepted
positions to the slots of the first nodes, which are the slots of the accepted nodes exactly
when the path is the first nodes in order. A round that accepts any other path, for instance
the second child of the root, leaves entries of rejected nodes under committed positions.

Along runs whose rounds all accept first nodes in order every row stays right.
-/

namespace SpecBlock.Serving

variable {E : Type} {entry : List Nat → E} {allocLenPerDecode : Nat} {state : OverlapState E}

theorem zip_flatMap {α β γ δ : Type} (first : List α) (second : List β) (left : α → List γ)
    (right : β → List δ) (count : first.length = second.length)
    (same : ∀ pair ∈ first.zip second, (left pair.1).length = (right pair.2).length) :
    (first.flatMap left).zip (second.flatMap right) =
      (first.zip second).flatMap (fun pair => (left pair.1).zip (right pair.2)) := by
  induction first generalizing second with
  | nil => rfl
  | cons a first ih =>
    cases second with
    | nil => simp at count
    | cons b second =>
      rw [List.flatMap_cons, List.flatMap_cons, List.zip_cons_cons, List.flatMap_cons,
        List.zip_append (same (a, b) List.mem_cons_self),
        ih second (by simpa using count)
          (fun pair member => same pair (List.mem_cons_of_mem _ member))]

/-- What a verify pass stores: each node of each tree at the slot of its position. -/
theorem mem_verifyStores (entry : List Nat → E) (draftTokenNum : Nat) (table : ReqToToken)
    (history : Nat → List Nat) {reqs : List OverlapReq} {trees : List VerifyTree}
    (count : trees.length = reqs.length)
    (stored : Nat × E) :
    stored ∈ (assignExtendCacheLocs draftTokenNum reqs table).zip
        (verifyEntries entry draftTokenNum reqs trees history) ↔
      ∃ pair ∈ reqs.zip trees, ∃ node < draftTokenNum,
        stored = (table pair.1.reqPoolIdx (pair.1.seqLen + node),
          entry (history pair.1.reqPoolIdx ++ pair.2.below node)) := by
  have paired : (reqs.zip trees).map Prod.fst = reqs := List.map_fst_zip (by omega)
  have locs : assignExtendCacheLocs draftTokenNum reqs table = (reqs.zip trees).flatMap
      (fun pair => (List.range draftTokenNum).map
        (fun node => table pair.1.reqPoolIdx (pair.1.seqLen + node))) := by
    unfold assignExtendCacheLocs
    conv_lhs => rw [← paired]
    rw [List.flatMap_map]
  rw [locs, verifyEntries, zip_flatMap _ _ _ _ rfl (by simp), List.mem_flatMap]
  constructor
  · rintro ⟨⟨pair, twin⟩, member, inside⟩
    obtain ⟨index, bound, same⟩ := List.mem_iff_getElem.mp member
    obtain rfl : pair = twin := by
      rw [List.getElem_zip, Prod.mk.injEq] at same
      exact same.1.symm.trans same.2
    have pairMember : pair ∈ reqs.zip trees := (List.of_mem_zip member).1
    rw [List.zip_map', List.mem_map] at inside
    obtain ⟨node, nodeMember, rfl⟩ := inside
    exact ⟨pair, pairMember, node, List.mem_range.mp nodeMember, rfl⟩
  · rintro ⟨pair, member, node, inside, rfl⟩
    obtain ⟨index, bound, read⟩ := List.mem_iff_getElem.mp member
    refine ⟨(pair, pair), List.mem_iff_getElem.mpr ⟨index, by simpa using bound, ?_⟩, ?_⟩
    · rw [List.getElem_zip, read]
    · rw [List.zip_map', List.mem_map]
      exact ⟨node, List.mem_range.mpr inside, rfl⟩

section round

variable {round : DecodeRound E}

theorem DecodeRound.Runs.window (orderly : state.Orderly entry allocLenPerDecode)
    (runs : round.Runs entry allocLenPerDecode state) (req : OverlapReq) (member : req ∈ round.reqs) :
    req.kvCommittedLen ≤ req.seqLen ∧ req.seqLen + round.draftTokenNum ≤ req.kvAllocatedLen := by
  obtain ⟨topped, room⟩ := prepared_orderly orderly runs.prepared
  obtain ⟨sum, -, bounded⟩ := topped.lengths req member
  have waiting : req.pending.length ≤ 1 := by
    obtain ⟨-, reqsSame, -⟩ := prepareForDecode_ok runs.prepared
    rw [reqsSame] at member
    obtain ⟨before, beforeMember, rfl⟩ := List.mem_map.mp member
    exact runs.behind before beforeMember
  have outstanding : req.pending.sum ≤ allocLenPerDecode := by
    match pendingSame : req.pending, waiting with
    | [], _ => simp
    | [acceptLen], _ => simpa using bounded acceptLen (by simp [pendingSame])
  have enough := room req member
  have fits := runs.fits
  omega

theorem DecodeRound.Runs.window_inj (orderly : state.Orderly entry allocLenPerDecode)
    (runs : round.Runs entry allocLenPerDecode state) (req : OverlapReq) (member : req ∈ round.reqs)
    {node : Nat} (inside : node < round.draftTokenNum) (other : OverlapReq)
    (otherMember : other ∈ round.reqs) {position : Nat} (within : position < other.kvAllocatedLen)
    (same : round.reqToToken req.reqPoolIdx (req.seqLen + node) =
      round.reqToToken other.reqPoolIdx position) : req = other ∧ req.seqLen + node = position := by
  have topped := (prepared_orderly orderly runs.prepared).1
  obtain ⟨above, room⟩ := runs.window orderly req member
  exact topped.exclusive req member (req.seqLen + node) (by omega) (by omega) other otherMember
    position within same

theorem DecodeRound.Runs.onTree (runs : round.Runs entry allocLenPerDecode state) {position : Nat}
    {path : AcceptedPath} (read : round.paths[position]? = some path) :
    ∃ tree, round.trees[position]? = some tree ∧ path.OnTree round.draftTokenNum tree := by
  have bound : position < round.trees.length := by
    rw [runs.treeCount, ← runs.pathCount]
    exact (List.getElem?_eq_some_iff.mp read).1
  refine ⟨_, List.getElem?_eq_getElem bound, runs.accepted (_, path) ?_⟩
  exact List.mem_iff_getElem?.mpr
    ⟨position, List.getElem?_zip_eq_some.mpr ⟨List.getElem?_eq_getElem bound, read⟩⟩

theorem AcceptedPath.OnTree.inside {path : AcceptedPath} {draftTokenNum : Nat} {tree : VerifyTree}
    (onTree : path.OnTree draftTokenNum tree) : ∀ node ∈ path.nodes, node < draftTokenNum := by
  intro node member
  obtain ⟨step, read⟩ := List.mem_iff_getElem?.mp member
  exact (onTree.spelled step node read).1

/-- A path that visits at each step inside the window the node of that number is in order. -/
theorem AcceptedPath.OnTree.inOrder {path : AcceptedPath} {draftTokenNum : Nat} {tree : VerifyTree}
    (onTree : path.OnTree draftTokenNum tree)
    (fixed : ∀ (step node : Nat), step < draftTokenNum → path.nodes[step]? = some node → node = step) :
    path.InOrder := by
  apply List.ext_getElem (by simp)
  intro step low high
  have read := List.getElem?_eq_getElem low
  rw [List.getElem_range]
  by_cases near : step < draftTokenNum
  · exact fixed step _ near read
  · -- The node of a later step is the node of an earlier one, but spells more tokens.
    obtain ⟨inside, spelled⟩ := onTree.spelled step _ read
    generalize path.nodes[step] = node at inside spelled
    have bound : node < path.nodes.length := by omega
    have itself := fixed node _ inside (List.getElem?_eq_getElem bound)
    have earlier := (onTree.spelled node _ (List.getElem?_eq_getElem bound)).2
    rw [itself, spelled] at earlier
    have lengths := congrArg List.length earlier
    rw [List.length_take, List.length_take, path.covered] at lengths
    omega

/-- Each round commits its paths exactly when they are the first nodes in order. -/
theorem DecodeRound.Runs.commits_iff (orderly : state.Orderly entry allocLenPerDecode)
    (runs : round.Runs entry allocLenPerDecode state) :
    CommitsPaths round.draftTokenNum round.reqs round.reqToToken round.reqToToken round.paths ↔
      round.InOrder := by
  constructor
  · intro commits path member
    obtain ⟨position, read⟩ := List.mem_iff_getElem?.mp member
    have bound : position < round.reqs.length := by
      rw [← runs.pathCount]
      exact (List.getElem?_eq_some_iff.mp read).1
    have reqRead := List.getElem?_eq_getElem bound
    have reqMember : round.reqs[position] ∈ round.reqs := List.getElem_mem bound
    obtain ⟨tree, -, onTree⟩ := runs.onTree read
    have same := commits position _ path reqRead read
    rw [gather_acceptIndex reqRead onTree.inside] at same
    apply onTree.inOrder
    intro step node near nodeRead
    have low : step < path.nodes.length := (List.getElem?_eq_some_iff.mp nodeRead).1
    have stepSame := congrArg (fun slots => slots[step]?) same
    simp only [List.getElem?_map, nodeRead, List.getElem?_range low, Option.map_some,
      Option.some_inj] at stepSame
    obtain ⟨above, room⟩ := runs.window orderly _ reqMember
    have index := (runs.window_inj orderly _ reqMember near _ reqMember
      (by have inside := (onTree.spelled step node nodeRead).1; omega) stepSame).2
    omega
  · intro inOrder position req path reqRead read
    obtain ⟨tree, -, onTree⟩ := runs.onTree read
    rw [gather_acceptIndex reqRead onTree.inside]
    have ordered : path.nodes = List.range path.nodes.length :=
      inOrder path (List.mem_of_getElem? read)
    conv_rhs => rw [ordered]

/-- The entry of a node of a window is there after the forward, and no other slot that a
request or the prefix cache refers to has changed. -/
theorem DecodeRound.Runs.stores (orderly : state.Orderly entry allocLenPerDecode)
    (runs : round.Runs entry allocLenPerDecode state) :
    (∀ pair ∈ round.reqs.zip round.trees, ∀ node < round.draftTokenNum,
      round.kv (round.reqToToken pair.1.reqPoolIdx (pair.1.seqLen + node)) =
        entry (state.history pair.1.reqPoolIdx ++ pair.2.below node)) ∧
    (∀ req ∈ round.reqs, ∀ position < req.seqLen,
      round.kv (round.reqToToken req.reqPoolIdx position) =
        state.kv (round.reqToToken req.reqPoolIdx position)) ∧
    (∀ cached ∈ state.cache, round.kv cached.1 = state.kv cached.1) := by
  have topped := (prepared_orderly orderly runs.prepared).1
  have stores := mem_verifyStores entry round.draftTokenNum round.reqToToken state.history
    runs.treeCount
  have reqOf : ∀ pair ∈ round.reqs.zip round.trees, pair.1 ∈ round.reqs :=
    fun pair member => (List.of_mem_zip member).1
  refine ⟨?_, ?_, ?_⟩
  · intro pair member node inside
    apply runs.written.agreed ((stores _).mpr ⟨pair, member, node, inside, rfl⟩)
    intro stored storedMember here
    obtain ⟨other, otherMember, otherNode, otherInside, rfl⟩ := (stores stored).mp storedMember
    obtain ⟨above, room⟩ := runs.window orderly pair.1 (reqOf pair member)
    obtain ⟨reqSame, nodeSame⟩ := runs.window_inj orderly other.1 (reqOf other otherMember)
      otherInside pair.1 (reqOf pair member) (by omega) here
    have pairSame : other = pair := by
      have distinct : ((round.reqs.zip round.trees).map Prod.fst).Nodup := by
        rw [List.map_fst_zip (Nat.le_of_eq runs.treeCount.symm)]
        exact List.Nodup.of_map _ topped.rows
      exact List.inj_on_of_nodup_map distinct otherMember member reqSame
    subst pairSame
    obtain rfl : otherNode = node := by omega
    rfl
  · intro req member position committed
    apply runs.written.frame
    intro stored storedMember here
    obtain ⟨other, otherMember, otherNode, otherInside, rfl⟩ := (stores stored).mp storedMember
    obtain ⟨above, room⟩ := runs.window orderly req member
    obtain ⟨rfl, positionSame⟩ := runs.window_inj orderly other.1 (reqOf other otherMember)
      otherInside req member (by omega) here
    omega
  · intro cached member
    apply runs.written.frame
    intro stored storedMember here
    obtain ⟨other, otherMember, otherNode, otherInside, rfl⟩ := (stores stored).mp storedMember
    obtain ⟨above, room⟩ := runs.window orderly other.1 (reqOf other otherMember)
    exact topped.uncached other.1 (reqOf other otherMember) (other.1.seqLen + otherNode) (by omega)
      (by omega) cached member here.symm

/-- A request after a verify pass is one before it, a path further. -/
theorem mem_verifySkippingFreeCache {reqs : List OverlapReq} {paths : List AcceptedPath}
    {req : OverlapReq} (member : req ∈ verifySkippingFreeCache reqs paths) :
    ∃ (position : Nat) (before : OverlapReq) (path : AcceptedPath), reqs[position]? = some before ∧ paths[position]? = some path ∧
      req = { before with
        seqLen := before.seqLen + path.nodes.length
        pending := before.pending ++ [path.nodes.length] } := by
  obtain ⟨position, read⟩ := List.mem_iff_getElem?.mp member
  rw [verifySkippingFreeCache, List.getElem?_zipWith_eq_some] at read
  obtain ⟨before, path, beforeRead, pathRead, rfl⟩ := read
  exact ⟨position, before, path, beforeRead, pathRead, rfl⟩

theorem AcceptedPath.OnTree.length_le {path : AcceptedPath} {draftTokenNum : Nat}
    {tree : VerifyTree} (onTree : path.OnTree draftTokenNum tree) (inOrder : path.InOrder) :
    path.nodes.length ≤ draftTokenNum := by
  cases length : path.nodes.length with
  | zero => exact Nat.zero_le _
  | succ last =>
    have member : last ∈ path.nodes := by
      rw [inOrder, length]
      exact List.mem_range.mpr (Nat.lt_succ_self last)
    exact onTree.inside last member

/-- A round that accepts first nodes in order keeps the account. -/
theorem DecodeRound.Runs.orderly (orderly : state.Orderly entry allocLenPerDecode)
    (runs : round.Runs entry allocLenPerDecode state) (inOrder : round.InOrder) :
    (round.following state).Orderly entry allocLenPerDecode := by
  have topped := (prepared_orderly orderly runs.prepared).1
  obtain ⟨nodes, committed, cachedKept⟩ := runs.stores orderly
  have mapped : ∀ slot, (round.following state).Mapped slot → OverlapState.Mapped
      { state with
        reqs := round.reqs, freePages := round.freePages, reqToToken := round.reqToToken } slot := by
    rintro slot ⟨req, member, position, inside, rfl⟩
    obtain ⟨index, before, path, read, -, rfl⟩ := mem_verifySkippingFreeCache member
    exact ⟨before, List.mem_of_getElem? read, position, inside, rfl⟩
  have rows : ((verifySkippingFreeCache round.reqs round.paths).map OverlapReq.reqPoolIdx).Nodup := by
    have same : (verifySkippingFreeCache round.reqs round.paths).map OverlapReq.reqPoolIdx =
        round.reqs.map OverlapReq.reqPoolIdx := by
      unfold verifySkippingFreeCache
      rw [List.map_zipWith]
      show List.zipWith (fun (req : OverlapReq) (_ : AcceptedPath) => req.reqPoolIdx) round.reqs
        round.paths = _
      rw [← List.map_uncurry_zip_eq_zipWith]
      conv_rhs => rw [← List.map_fst_zip (Nat.le_of_eq runs.pathCount.symm), List.map_map]
      rfl
    rw [same]
    exact topped.rows
  constructor
  · exact rows
  · exact topped.pages
  · intro req member
    obtain ⟨index, before, path, read, pathRead, rfl⟩ := mem_verifySkippingFreeCache member
    have beforeMember := List.mem_of_getElem? read
    obtain ⟨tree, -, onTree⟩ := runs.onTree pathRead
    have short := onTree.length_le (inOrder path (List.mem_of_getElem? pathRead))
    obtain ⟨sum, inside, bounded⟩ := topped.lengths before beforeMember
    obtain ⟨above, room⟩ := runs.window orderly before beforeMember
    have fits := runs.fits
    refine ⟨?_, ?_, ?_⟩
    · show before.kvCommittedLen + (before.pending ++ [path.nodes.length]).sum =
        before.seqLen + path.nodes.length
      rw [List.sum_append, List.sum_singleton]
      omega
    · show before.seqLen + path.nodes.length ≤ before.kvAllocatedLen
      omega
    · intro acceptLen acceptMember
      rcases List.mem_append.mp acceptMember with earlier | here
      · exact bounded acceptLen earlier
      · rw [List.mem_singleton.mp here]
        omega
  · intro slot reached
    exact topped.held slot (mapped slot reached)
  · exact topped.cacheHeld
  · intro req member position above inside other otherMember otherPosition otherInside same
    obtain ⟨index, before, path, read, pathRead, rfl⟩ := mem_verifySkippingFreeCache member
    obtain ⟨otherIndex, otherBefore, otherPath, otherRead, otherPathRead, rfl⟩ :=
      mem_verifySkippingFreeCache otherMember
    obtain ⟨reqSame, positionSame⟩ := topped.exclusive before (List.mem_of_getElem? read) position
      above inside otherBefore (List.mem_of_getElem? otherRead) otherPosition otherInside same
    have rowSame : before.reqPoolIdx = otherBefore.reqPoolIdx :=
      congrArg OverlapReq.reqPoolIdx reqSame
    exact ⟨List.inj_on_of_nodup_map rows member otherMember rowSame, positionSame⟩
  · intro req member position above inside
    obtain ⟨index, before, path, read, -, rfl⟩ := mem_verifySkippingFreeCache member
    exact topped.uncached before (List.mem_of_getElem? read) position above inside
  · intro req member
    obtain ⟨index, before, path, read, pathRead, rfl⟩ := mem_verifySkippingFreeCache member
    have beforeMember := List.mem_of_getElem? read
    obtain ⟨tree, treeRead, onTree⟩ := runs.onTree pathRead
    have ordered := inOrder path (List.mem_of_getElem? pathRead)
    obtain ⟨length, entries⟩ := topped.contents before beforeMember
    have recorded : round.history before.reqPoolIdx =
        state.history before.reqPoolIdx ++ path.tokens :=
      runs.recorded (before, path) (List.mem_iff_getElem?.mpr
        ⟨index, List.getElem?_zip_eq_some.mpr ⟨read, pathRead⟩⟩)
    change (state.history before.reqPoolIdx).length = before.seqLen at length
    refine ⟨?_, ?_⟩
    · show (round.history before.reqPoolIdx).length = before.seqLen + path.nodes.length
      rw [recorded, List.length_append, length, path.covered]
    intro position inside
    show round.kv (round.reqToToken before.reqPoolIdx position) =
      entry ((round.history before.reqPoolIdx).take (position + 1))
    rw [recorded]
    by_cases old : position < before.seqLen
    · rw [committed before beforeMember position old, List.take_append_of_le_length (by omega)]
      exact entries position old
    · obtain ⟨step, rfl⟩ := Nat.exists_eq_add_of_le (Nat.le_of_not_lt old)
      have within : step < path.nodes.length := by
        change before.seqLen + step < before.seqLen + path.nodes.length at inside
        omega
      have nodeRead : path.nodes[step]? = some step := by
        rw [ordered]
        exact List.getElem?_range within
      obtain ⟨nodeInside, spelled⟩ := onTree.spelled step step nodeRead
      have stored := nodes (before, tree) (List.mem_iff_getElem?.mpr
        ⟨index, List.getElem?_zip_eq_some.mpr ⟨read, treeRead⟩⟩) step nodeInside
      simp only at stored
      have kept : (state.history before.reqPoolIdx).take (before.seqLen + step + 1) =
          state.history before.reqPoolIdx := List.take_of_length_le (by omega)
      rw [stored, spelled, List.take_append, kept, length,
        show before.seqLen + step + 1 - before.seqLen = step + 1 by omega]
  · intro cached member
    show round.kv cached.1 = entry cached.2
    rw [cachedKept cached member]
    exact orderly.cacheContents cached member

end round

end SpecBlock.Serving
