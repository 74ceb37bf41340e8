import SpecBlock.Foundation.Runs
import SpecBlock.Foundation.Rows
import SpecBlock.Serving.KvPool

/-!
# Target slots under the overlap worker

With the overlap scheduler a request owns target slots ahead of its committed
tokens. `prepare_for_decode` tops the allocation up; the verify pass writes tree node
`j` at the slot that the request's row maps position `seq_len + j` to, accepts a
path of nodes and advances the sequence length. Unlike the first worker it neither
frees the rejected slots nor maps the accepted positions to the slots of the accepted
nodes, so the row is right for just those paths that are the first nodes in order.

A run admits requests, whose prompt may start in slots shared with the prefix cache,
prepares and verifies the running batch, lets the scheduler catch up with accepted
lengths, finishes requests and reclaims slots nobody maps. Rows are functions of the
position; what a row held before it was assigned stays there.
-/

namespace SpecBlock.Serving

open Rows

variable {E : Type}

/-- A request of the running batch as the overlap scheduler accounts for it; `pending`
are bonus-inclusive accept lengths the scheduler has not processed yet. -/
structure OverlapReq where
  reqPoolIdx : Nat
  seqLen : Nat
  kvCommittedLen : Nat
  kvAllocatedLen : Nat
  pending : List Nat
  deriving DecidableEq, Repr

/-- Slots by request row and position. -/
abbrev ReqToToken := Nat → Nat → Nat

/-- Take slots from the front of the free pages. -/
def allocTokenSlots (numTokens : Nat) (freePages : List Nat) :
    Except RuntimeError (List Nat × List Nat) :=
  if freePages.length < numTokens then
    .error ⟨s!"Out of memory. Try to lower your batch size.\nTry to allocate {numTokens} tokens.\n"⟩
  else .ok (freePages.take numTokens, freePages.drop numTokens)

/-- Write consecutive parts of the slots into ranges of rows. -/
def assignReqToTokenPool : List (Nat × Nat × Nat) → List Nat → ReqToToken → ReqToToken
  | [], _, table => table
  | (reqPoolIdx, start, stop) :: ranges, locs, table =>
    assignReqToTokenPool ranges (locs.drop (stop - start)) (fun row position =>
      if row = reqPoolIdx ∧ start ≤ position ∧ position < stop
      then locs.getD (position - start) 0 else table row position)

/-- Slots a decode preparation adds to a request. -/
def OverlapReq.needed (allocLenPerDecode : Nat) (req : OverlapReq) : Nat :=
  req.kvCommittedLen + 2 * allocLenPerDecode - req.kvAllocatedLen

/-- Top up the allocation of every request of the batch. -/
def prepareForDecode (allocLenPerDecode : Nat) (reqs : List OverlapReq) (freePages : List Nat)
    (table : ReqToToken) : Except RuntimeError (List OverlapReq × List Nat × ReqToToken) := do
  let numNeededTokens := (reqs.map (OverlapReq.needed allocLenPerDecode)).sum
  let allocated ← allocTokenSlots numNeededTokens freePages
  let ranges := reqs.map (fun req =>
    (req.reqPoolIdx, req.kvAllocatedLen, req.kvAllocatedLen + req.needed allocLenPerDecode))
  return (reqs.map (fun req => { req with
      kvAllocatedLen := req.kvAllocatedLen + req.needed allocLenPerDecode }),
    allocated.2, assignReqToTokenPool ranges allocated.1 table)

/-- Slots the verify pass writes: for every request, those of the next positions. -/
def assignExtendCacheLocs (draftTokenNum : Nat) (reqs : List OverlapReq) (table : ReqToToken) :
    List Nat :=
  reqs.flatMap (fun req =>
    (List.range draftTokenNum).map (fun node => table req.reqPoolIdx (req.seqLen + node)))

/-- The path a verify pass accepts for a request: its nodes from the root, and their tokens. -/
structure AcceptedPath where
  nodes : List Nat
  tokens : List Nat
  covered : tokens.length = nodes.length

/-- A verify pass without the free-cache stage: sequence lengths advance, rows stay. -/
def verifySkippingFreeCache (reqs : List OverlapReq) (paths : List AcceptedPath) :
    List OverlapReq :=
  List.zipWith (fun req path => { req with
    seqLen := req.seqLen + path.nodes.length
    pending := req.pending ++ [path.nodes.length] }) reqs paths

/-- Global node indices of an accepted path, as `accept_index` lists them. -/
def acceptIndex (draftTokenNum position : Nat) (path : AcceptedPath) : List Nat :=
  path.nodes.map (position * draftTokenNum + ·)

/-- The row of every request maps the positions it accepted to the slots its accepted nodes
were written to, which the first worker takes from `out_cache_loc[accept_index]`. -/
def CommitsPaths (draftTokenNum : Nat) (reqs : List OverlapReq) (table following : ReqToToken)
    (paths : List AcceptedPath) : Prop :=
  ∀ (position : Nat) (req : OverlapReq) (path : AcceptedPath),
    reqs[position]? = some req → paths[position]? = some path →
      (List.range path.nodes.length).map (fun step =>
        following req.reqPoolIdx (req.seqLen + step)) =
      gather (acceptIndex draftTokenNum position path)
        (assignExtendCacheLocs draftTokenNum reqs table)

/-- The node written at a position of the flat cache locations. -/
theorem assignExtendCacheLocs_getElem? {draftTokenNum : Nat} {reqs : List OverlapReq}
    {table : ReqToToken} {position node : Nat} {req : OverlapReq}
    (here : reqs[position]? = some req) (inside : node < draftTokenNum) :
    (assignExtendCacheLocs draftTokenNum reqs table)[position * draftTokenNum + node]? =
      some (table req.reqPoolIdx (req.seqLen + node)) := by
  unfold assignExtendCacheLocs
  induction reqs generalizing position with
  | nil => simp at here
  | cons first rest ih =>
    rw [List.flatMap_cons]
    cases position with
    | zero =>
      obtain rfl : first = req := by simpa using here
      rw [Nat.zero_mul, Nat.zero_add, List.getElem?_append_left (by simpa using inside)]
      simp [List.getElem?_range inside]
    | succ position =>
      have size : ((List.range draftTokenNum).map (fun node =>
          table first.reqPoolIdx (first.seqLen + node))).length = draftTokenNum := by simp
      rw [List.getElem?_append_right (by rw [size, Nat.succ_mul]; omega), size,
        show (position + 1) * draftTokenNum + node - draftTokenNum =
          position * draftTokenNum + node by rw [Nat.succ_mul]; omega]
      exact ih (by simpa using here)

theorem gather_acceptIndex {draftTokenNum : Nat} {reqs : List OverlapReq} {table : ReqToToken}
    {position : Nat} {req : OverlapReq} {path : AcceptedPath} (here : reqs[position]? = some req)
    (inside : ∀ node ∈ path.nodes, node < draftTokenNum) :
    gather (acceptIndex draftTokenNum position path)
        (assignExtendCacheLocs draftTokenNum reqs table) =
      path.nodes.map (fun node => table req.reqPoolIdx (req.seqLen + node)) := by
  unfold acceptIndex
  generalize path.nodes = nodes at inside ⊢
  induction nodes with
  | nil => rfl
  | cons node nodes ih =>
    have read : (assignExtendCacheLocs draftTokenNum reqs table)[position * draftTokenNum + node]? =
        some (table req.reqPoolIdx (req.seqLen + node)) :=
      assignExtendCacheLocs_getElem? here (inside node (by simp))
    rw [List.map_cons, gather_cons _ _ _ _ read, List.map_cons,
      ih (fun other member => inside other (by simp [member]))]

end SpecBlock.Serving
