import SpecBlock.Foundation.Stores
import SpecBlock.Serving.OverlapWorker

/-!
# Runs of the overlap worker

The overlap scheduler prepares and verifies the running batch while the result of the round
before still waits to be processed, so at most one accept length of a request is outstanding
when its next round is prepared. A round tops up the allocation, writes the entry of every
tree node at the slot of its position and advances the sequence lengths; nothing moves an
entry or a row afterwards.

Between rounds requests are admitted and finish. Their committed slots may enter the prefix
cache, from which later prompts start; a row may exchange a slot for a cached one with the
same tokens; cached slots are evicted, and slots that nothing refers to become free again.

The entry of a position depends on the tokens up to it. `history` records the tokens of a
request that are committed, and nothing but the record of later tokens reads it.
-/

namespace SpecBlock.Serving

variable {E : Type}

/-- A verify tree: the tokens from its root down to each node. -/
structure VerifyTree where
  below : Nat → List Nat

/-- A path the verify pass may accept on a tree: it starts at the root, and each of its nodes
spells the tokens accepted so far. -/
structure AcceptedPath.OnTree (path : AcceptedPath) (draftTokenNum : Nat) (tree : VerifyTree) :
    Prop where
  rooted : path.nodes.head? = some 0
  spelled : ∀ (step node : Nat), path.nodes[step]? = some node →
    node < draftTokenNum ∧ tree.below node = path.tokens.take (step + 1)

/-- The accepted nodes are the first nodes of the tree in order. -/
def AcceptedPath.InOrder (path : AcceptedPath) : Prop := path.nodes = List.range path.nodes.length

/-- Slots, their entries and who refers to them: the running requests through their rows, and
the prefix cache with the tokens each of its slots stands for. -/
structure OverlapState (E : Type) where
  reqs : List OverlapReq
  freePages : List Nat
  reqToToken : ReqToToken
  kv : Nat → E
  cache : List (Nat × List Nat)
  history : Nat → List Nat

/-- The entries a verify pass writes: the nodes of each request's tree, after its tokens. -/
def verifyEntries (entry : List Nat → E) (draftTokenNum : Nat) (reqs : List OverlapReq)
    (trees : List VerifyTree) (history : Nat → List Nat) : List E :=
  (reqs.zip trees).flatMap (fun pair => (List.range draftTokenNum).map
    (fun node => entry (history pair.1.reqPoolIdx ++ pair.2.below node)))

/-- What a decode round draws up, accepts and leaves behind. -/
structure DecodeRound (E : Type) where
  draftTokenNum : Nat
  trees : List VerifyTree
  paths : List AcceptedPath
  reqs : List OverlapReq
  freePages : List Nat
  reqToToken : ReqToToken
  kv : Nat → E
  history : Nat → List Nat

/-- A decode round of a state: `prepare_for_decode`, then `verify` of a tree a request, with at
most one result waiting. The stores of the forward happen in some order. -/
structure DecodeRound.Runs (entry : List Nat → E) (allocLenPerDecode : Nat)
    (state : OverlapState E) (round : DecodeRound E) : Prop where
  behind : ∀ req ∈ state.reqs, req.pending.length ≤ 1
  prepared : prepareForDecode allocLenPerDecode state.reqs state.freePages state.reqToToken =
    .ok (round.reqs, round.freePages, round.reqToToken)
  fits : round.draftTokenNum ≤ allocLenPerDecode
  treeCount : round.trees.length = round.reqs.length
  pathCount : round.paths.length = round.reqs.length
  accepted : ∀ pair ∈ round.trees.zip round.paths, pair.2.OnTree round.draftTokenNum pair.1
  written : Stores.Outcome state.kv
    ((assignExtendCacheLocs round.draftTokenNum round.reqs round.reqToToken).zip
      (verifyEntries entry round.draftTokenNum round.reqs round.trees state.history)) round.kv
  recorded : ∀ pair ∈ round.reqs.zip round.paths,
    round.history pair.1.reqPoolIdx = state.history pair.1.reqPoolIdx ++ pair.2.tokens

/-- The state after a decode round. -/
def DecodeRound.following (state : OverlapState E) (round : DecodeRound E) : OverlapState E where
  reqs := verifySkippingFreeCache round.reqs round.paths
  freePages := round.freePages
  reqToToken := round.reqToToken
  kv := round.kv
  cache := state.cache
  history := round.history

/-- Every path a round accepts is the first nodes of its tree in order. -/
def DecodeRound.InOrder (round : DecodeRound E) : Prop := ∀ path ∈ round.paths, path.InOrder

/-- A slot that a running request reaches through its row. -/
def OverlapState.Mapped (state : OverlapState E) (slot : Nat) : Prop :=
  ∃ req ∈ state.reqs, ∃ position < req.kvAllocatedLen,
    state.reqToToken req.reqPoolIdx position = slot

/-- Point one position of a row at another slot. -/
def remapPosition (reqPoolIdx position slot : Nat) (table : ReqToToken) : ReqToToken :=
  fun row other => if row = reqPoolIdx ∧ other = position then slot else table row other

/-- Steps of the scheduler and the worker. -/
inductive OverlapStep (entry : List Nat → E) (allocLenPerDecode : Nat)
    (allowed : DecodeRound E → Prop) : OverlapState E → OverlapState E → Prop
  /-- Prefill a request whose prompt starts with cached slots. -/
  | prefill (state : OverlapState E) (reqPoolIdx : Nat) (prompt cached locs freePages : List Nat)
      (kv : Nat → E) (history : Nat → List Nat)
      (unused : ∀ req ∈ state.reqs, req.reqPoolIdx ≠ reqPoolIdx)
      (short : cached.length ≤ prompt.length)
      (found : ∀ (position slot : Nat), cached[position]? = some slot →
        (slot, prompt.take (position + 1)) ∈ state.cache)
      (allocated : allocTokenSlots (prompt.length - cached.length) state.freePages =
        .ok (locs, freePages))
      (written : Stores.Outcome state.kv (locs.zip ((List.range locs.length).map
        (fun index => entry (prompt.take (cached.length + index + 1))))) kv)
      (recorded : history reqPoolIdx = prompt ∧
        ∀ req ∈ state.reqs, history req.reqPoolIdx = state.history req.reqPoolIdx) :
      OverlapStep entry allocLenPerDecode allowed state
        { state with
          reqs := state.reqs ++ [⟨reqPoolIdx, prompt.length, prompt.length, prompt.length, []⟩]
          freePages := freePages
          reqToToken := assignReqToTokenPool [(reqPoolIdx, 0, cached.length),
            (reqPoolIdx, cached.length, prompt.length)] (cached ++ locs) state.reqToToken
          kv := kv
          history := history }
  /-- Prepare and verify the running batch. -/
  | decode (state : OverlapState E) (round : DecodeRound E)
      (runs : round.Runs entry allocLenPerDecode state) (permitted : allowed round) :
      OverlapStep entry allocLenPerDecode allowed state (round.following state)
  /-- Process the oldest accept length of a request. -/
  | process (state : OverlapState E) (position acceptLen : Nat) (pending : List Nat)
      (req : OverlapReq) (here : state.reqs[position]? = some req)
      (waiting : req.pending = acceptLen :: pending) :
      OverlapStep entry allocLenPerDecode allowed state
        { state with
          reqs := state.reqs.set position
            { req with kvCommittedLen := req.kvCommittedLen + acceptLen, pending := pending } }
  /-- Finish a request: its overallocated slots become free. -/
  | finish (state : OverlapState E) (position : Nat) (req : OverlapReq)
      (here : state.reqs[position]? = some req) :
      OverlapStep entry allocLenPerDecode allowed state
        { state with
          reqs := state.reqs.eraseIdx position
          freePages := state.freePages ++
            (List.range (req.kvAllocatedLen - req.kvCommittedLen)).map
              (fun index => state.reqToToken req.reqPoolIdx (req.kvCommittedLen + index)) }
  /-- Enter a committed slot of a running request into the prefix cache. -/
  | share (state : OverlapState E) (req : OverlapReq) (member : req ∈ state.reqs) (position : Nat)
      (committed : position < req.kvCommittedLen) :
      OverlapStep entry allocLenPerDecode allowed state
        { state with
          cache := (state.reqToToken req.reqPoolIdx position,
            (state.history req.reqPoolIdx).take (position + 1)) :: state.cache }
  /-- Exchange a committed slot for a cached one of the same tokens. -/
  | exchange (state : OverlapState E) (req : OverlapReq) (member : req ∈ state.reqs)
      (position slot : Nat) (committed : position < req.kvCommittedLen)
      (found : (slot, (state.history req.reqPoolIdx).take (position + 1)) ∈ state.cache) :
      OverlapStep entry allocLenPerDecode allowed state
        { state with reqToToken := remapPosition req.reqPoolIdx position slot state.reqToToken }
  /-- Forget cached slots. -/
  | evict (state : OverlapState E) (cache : List (Nat × List Nat))
      (fewer : ∀ entry ∈ cache, entry ∈ state.cache) :
      OverlapStep entry allocLenPerDecode allowed state { state with cache := cache }
  /-- Free slots that nothing refers to, in whatever order the allocator then lists them. -/
  | reclaim (state : OverlapState E) (slots freePages : List Nat) (distinct : slots.Nodup)
      (idle : ∀ slot ∈ slots, slot ∉ state.freePages ∧ ¬ state.Mapped slot ∧
        ∀ entry ∈ state.cache, entry.1 ≠ slot)
      (listed : freePages.Perm (state.freePages ++ slots)) :
      OverlapStep entry allocLenPerDecode allowed state { state with freePages := freePages }

/-- The overlap worker from an idle server, with the decode rounds that are allowed. -/
def overlapWorker (entry : List Nat → E) (allocLenPerDecode : Nat)
    (allowed : DecodeRound E → Prop) : System (OverlapState E) where
  start state := state.reqs = [] ∧ state.cache = [] ∧ state.freePages.Nodup
  step := OverlapStep entry allocLenPerDecode allowed

/-- Every row maps each committed position to a slot with that position's entry. -/
def OverlapState.RowsCommitted (entry : List Nat → E) (state : OverlapState E) : Prop :=
  ∀ req ∈ state.reqs, (state.history req.reqPoolIdx).length = req.seqLen ∧
    ∀ position < req.seqLen, state.kv (state.reqToToken req.reqPoolIdx position) =
      entry ((state.history req.reqPoolIdx).take (position + 1))

end SpecBlock.Serving
