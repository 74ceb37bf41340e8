import Mathlib.Algebra.Ring.Int.Defs
import Mathlib.Algebra.Ring.Nat
import SpecBlock.Foundation.ChildSibling
import SpecBlock.Foundation.Stores

/-!
# The links the verifier walks

The verifier sees a tree as two tables, the first child and the next sibling of every node. Three
pieces of code fill them. One scans the nodes in order and remembers the last child of each parent,
one scatters every node to its parent under a minimum and compares all pairs for the siblings, and
one runs a program for each node that takes two minima over all the others.

They read their parents in different conventions. The scan has minus one at the root and the index
of a parent elsewhere; the scatter leaves the root out of the count, so that minus one is a child of
the root; the programs have minus one at the root and at nodes that are not in use.

Each of them is shown to store the links of the forest, so they agree, and following what they
store visits the children of a node and the whole tree.
-/

namespace SpecBlock.Serving
open ChildSibling Stores

/-- A link as it is stored. -/
def link (target : Option Nat) : Int := target.elim (-1) (fun node => (node : Int))

/-- The node a stored link leads to. -/
def target (stored : Int) : Option Nat := if stored < 0 then none else some stored.toNat

/-- The link of a node in a table. -/
def linkAt (links : List Int) (node : Nat) : Option Nat := links[node]?.bind target

/-- The tables of the scan so far. -/
structure LinkScan where
  lastChild : List Int
  nextToken : List Int
  nextSibling : List Int

/-- A node of the loop. An index out of the tables is an error. -/
def LinkScan.visit (parents : List Int) (scan : LinkScan) (i : Nat) : Option LinkScan := do
  let p ← parents[i]?
  if p < 0 then
    return scan
  let prevLast ← scan.lastChild[p.toNat]?
  if prevLast < 0 then
    return { scan with
      nextToken := scan.nextToken.set p.toNat i
      lastChild := scan.lastChild.set p.toNat i }
  else
    return { scan with
      nextSibling := scan.nextSibling.set prevLast.toNat i
      lastChild := scan.lastChild.set p.toNat i }

/-- The tables before the loop. -/
def LinkScan.fresh (n : Nat) : LinkScan where
  lastChild := List.replicate n (-1)
  nextToken := List.replicate n (-1)
  nextSibling := List.replicate n (-1)

/-- `parents_to_next_token_and_sibling`. One scan links the nodes in their order, so siblings follow
each other by index. A parent out of the arrays is an error. -/
def parentsToNextTokenAndSibling (parents : List Int) : Option (List Int × List Int) := do
  let scan ← (List.range parents.length).foldlM (LinkScan.visit parents)
    (LinkScan.fresh parents.length)
  return (scan.nextToken, scan.nextSibling)

/-- `torch.min`, or `tl.min`, of a vector of at least one lane. -/
def laneMin (lanes : Nat) (vector : Nat → Int) : Int :=
  ((List.range lanes).map vector).foldl min (vector 0)

/-- `scatter_reduce_` with `amin`. An index out of the buffer is an error. -/
def scatterAmin (buffer : List Int) (entries : List (Int × Int)) : Option (List Int) :=
  entries.foldlM (fun written entry =>
    if 0 ≤ entry.1 ∧ entry.1.toNat < written.length then
      some (written.modify entry.1.toNat (min entry.2))
    else none) buffer

/-- `topo_parent` of a parent that leaves the root out of the count. -/
def topoParent (parent : Int) : Int := if parent = -1 then 0 else parent + 1

section gpu

variable (parentsAll : List (List Int)) (nFull : Nat)

/-- `topo_parent[ridx, j]`. -/
def topoParentAt (ridx j : Nat) : Int := topoParent ((parentsAll.getD ridx []).getD j 0)

/-- What the scatter of the first children stores, and where. -/
def nextTokenEntries : List (Int × Int) :=
  (List.range parentsAll.length).flatMap (fun ridx => (List.range nFull).map (fun j =>
    ((ridx * nFull : Nat) + topoParentAt parentsAll ridx j,
      if 1 ≤ j then (j : Int) else nFull + 1)))

/-- A row of `retrive_next_sibling`. -/
def nextSiblingRow (ridx : Nat) : List Int :=
  (List.range nFull).map (fun j =>
    let minJp := laneMin nFull (fun jp =>
      if j < jp ∧ topoParentAt parentsAll ridx j = topoParentAt parentsAll ridx jp ∧ 1 ≤ j then
        (jp : Int) else nFull + 1)
    if minJp = nFull + 1 then -1 else minJp)

/-- A row of `retrive_next_token`. -/
def nextTokenRow (nextTokBuf : List Int) (ridx : Nat) : List Int :=
  (List.range nFull).map (fun j =>
    let least := nextTokBuf.getD (ridx * nFull + j) 0
    if least = nFull + 1 then -1 else least)

end gpu

/-- `build_retrieve_links_gpu`. The parents stack only when their rows are of one width, and the
comparison of siblings takes all nodes or a single column, which broadcasts. Every other width is
an error, and so is no tree at all. -/
def buildRetrieveLinksGpu (trees : List (List Int)) (nFull : Nat) :
    Option (List (List Int) × List (List Int)) := do
  let parentsAll := trees.map (·.take nFull)
  if trees.isEmpty then none
  else if parentsAll.all (fun parents => parents.length = nFull) then
    let nextTokBuf ← scatterAmin (List.replicate (trees.length * nFull) (nFull + 1))
      (nextTokenEntries parentsAll nFull)
    return ((List.range trees.length).map (nextTokenRow nFull nextTokBuf),
      (List.range trees.length).map (nextSiblingRow parentsAll nFull))
  else if parentsAll.all (fun parents => parents.length = 1) then
    -- the flat scatter pairs the single column with the first of the flat values
    let nextTokBuf ← scatterAmin (List.replicate (trees.length * nFull) (nFull + 1))
      ((List.range trees.length).map (fun ridx =>
        ((ridx * nFull : Nat) + topoParentAt parentsAll ridx 0,
          if 1 ≤ ridx % nFull then ((ridx % nFull : Nat) : Int) else nFull + 1)))
    let column := parentsAll.map (fun parents => List.replicate nFull (parents.headD 0))
    return ((List.range trees.length).map (nextTokenRow nFull nextTokBuf),
      (List.range trees.length).map (nextSiblingRow column nFull))
  else none

/-- The memory the link stage reads. -/
structure LinkMemory where
  topoParents : Nat → Int
  keptValid : Nat → Bool

/-- `_topology_links_row_kernel`: the two stores of a program. -/
def topologyLinksRowKernel (memory : LinkMemory) (strideKept strideOut N blockN pid : Nat) :
    (Nat × Int) × (Nat × Int) :=
  let b := pid / N
  let q := pid - b * N
  let candidateValid := fun candidate =>
    if 0 < candidate ∧ candidate < N then memory.keptValid (b * strideKept + (candidate - 1)) else false
  let candidateParent := fun candidate =>
    if candidate < N then memory.topoParents (b * strideOut + candidate) else -1
  let qParent := memory.topoParents (b * strideOut + q)
  let qValid := q = 0 ∨ (if 0 < q then memory.keptValid (b * strideKept + (q - 1)) else false) = true
  let inf : Int := N + 1
  let child := laneMin blockN (fun candidate =>
    if 0 < candidate ∧ candidate < N ∧ candidateValid candidate ∧ candidateParent candidate = q then
      (candidate : Int) else inf)
  let sibling := laneMin blockN (fun candidate =>
    if 0 < candidate ∧ candidate < N ∧ candidateValid candidate ∧ q < candidate ∧ 0 < q ∧ qValid ∧
        candidateParent candidate = qParent then
      (candidate : Int) else inf)
  ((b * strideOut + q, if child < inf then child else -1),
    (b * strideOut + q, if sibling < inf then sibling else -1))

/-- The link stage, launched with one program for each node of a batch. -/
def TopologyLinks (memory : LinkMemory) (batch strideKept strideOut N blockN : Nat)
    (nextToken nextSibling nextToken' nextSibling' : Nat → Int) : Prop :=
  Outcome nextToken ((List.range (batch * N)).map (fun pid =>
    (topologyLinksRowKernel memory strideKept strideOut N blockN pid).1)) nextToken' ∧
  Outcome nextSibling ((List.range (batch * N)).map (fun pid =>
    (topologyLinksRowKernel memory strideKept strideOut N blockN pid).2)) nextSibling'

/-! ## The least of some lanes -/

/-- A value is the least of some nodes, or a bound in their place where there is none. -/
structure Least (candidates : Nat → Prop) (top value : Int) : Prop where
  lower : ∀ candidate, candidates candidate → value ≤ candidate
  attained : value = top ∨ ∃ candidate, candidates candidate ∧ value = candidate

/-- A minimum is no greater than what it is taken of, and one of it. -/
theorem foldl_min_spec (values : List Int) (start : Int) :
    (∀ value ∈ start :: values, values.foldl min start ≤ value) ∧
      values.foldl min start ∈ start :: values := by
  induction values generalizing start with
  | nil => simp
  | cons value values ih =>
    obtain ⟨least, member⟩ := ih (min start value)
    have bound := least _ List.mem_cons_self
    rw [List.foldl_cons]
    refine ⟨?_, ?_⟩
    · intro other listed
      rcases List.mem_cons.mp listed with rfl | listed
      · omega
      · rcases List.mem_cons.mp listed with rfl | listed
        · omega
        · exact least other (List.mem_cons_of_mem _ listed)
    · rcases List.mem_cons.mp member with same | listed
      · rw [same]
        rcases Int.le_total start value with here | here
        · simp [Int.min_eq_left here]
        · simp [Int.min_eq_right here]
      · exact List.mem_cons_of_mem _ (List.mem_cons_of_mem _ listed)

/-- The minimum of masked lanes is the least lane of the mask. -/
theorem laneMin_least (lanes : Nat) (mask : Nat → Prop) [DecidablePred mask] (top : Int)
    (lane : 0 < lanes) : Least (fun lane => lane < lanes ∧ mask lane) top
      (laneMin lanes (fun lane => if mask lane then (lane : Int) else top)) := by
  obtain ⟨lower, member⟩ := foldl_min_spec
    ((List.range lanes).map (fun lane => if mask lane then (lane : Int) else top))
    (if mask 0 then ((0 : Nat) : Int) else top)
  refine ⟨?_, ?_⟩
  · rintro lane ⟨inside, masked⟩
    have bound := lower (if mask lane then (lane : Int) else top)
      (List.mem_cons_of_mem _ (List.mem_map_of_mem (List.mem_range.mpr inside)))
    rwa [if_pos masked] at bound
  · have attained : ∃ lane < lanes, laneMin lanes (fun lane => if mask lane then (lane : Int) else top) =
        if mask lane then (lane : Int) else top := by
      rcases List.mem_cons.mp member with first | listed
      · exact ⟨0, lane, first⟩
      · obtain ⟨lane, inside, value⟩ := List.mem_map.mp listed
        exact ⟨lane, List.mem_range.mp inside, value.symm⟩
    obtain ⟨lane, inside, value⟩ := attained
    by_cases masked : mask lane
    · rw [if_pos masked] at value
      exact .inr ⟨lane, ⟨inside, masked⟩, value⟩
    · rw [if_neg masked] at value
      exact .inl value

theorem Least.congr {candidates others : Nat → Prop} {top value : Int}
    (least : Least candidates top value) (same : ∀ node, candidates node ↔ others node) :
    Least others top value where
  lower node member := least.lower node ((same node).mpr member)
  attained := by
    rcases least.attained with absent | ⟨node, member, value⟩
    · exact .inl absent
    · exact .inr ⟨node, (same node).mp member, value⟩

section least

variable {nodes start above : Nat} {parent : Nat → Option Nat} {top value : Int}

/-- The least child is the first of the list, and the bound says that there is none. -/
theorem Least.link (least : Least (· ∈ childrenFrom nodes parent start above) top value)
    (high : (nodes : Int) ≤ top) :
    (if value < top then value else -1) = link (childrenFrom nodes parent start above).head? := by
  cases first : (childrenFrom nodes parent start above).head? with
  | none =>
    have empty := List.head?_eq_none_iff.mp first
    rcases least.attained with absent | ⟨node, member, -⟩
    · rw [absent, if_neg (Int.lt_irrefl _)]
      rfl
    · simp [empty] at member
  | some child =>
    obtain ⟨low, inside, isChild, listed⟩ := head_childrenFrom first
    have bound : value ≤ child := least.lower child (by simp [low, inside, isChild])
    have strict : value < top := by omega
    rw [if_pos strict]
    rcases least.attained with absent | ⟨node, member, value⟩
    · omega
    · rw [listed, List.mem_cons] at member
      rcases member with rfl | later
      · rw [value]
        rfl
      · have behind := (mem_childrenFrom.mp later).1
        omega

theorem Least.eq_iff (least : Least (· ∈ childrenFrom nodes parent start above) top value)
    (high : (nodes : Int) ≤ top) : value = top ↔ ¬ value < top := by
  rcases least.attained with absent | ⟨node, member, value⟩
  · simp [absent]
  · have inside := (mem_childrenFrom.mp member).2.1
    omega

theorem Least.link' (least : Least (· ∈ childrenFrom nodes parent start above) top value)
    (high : (nodes : Int) ≤ top) :
    (if value = top then -1 else value) = Serving.link (childrenFrom nodes parent start above).head? := by
  rw [← least.link high]
  by_cases here : value = top
  · rw [if_pos here, if_neg ((least.eq_iff high).mp here)]
  · rw [if_neg here, if_pos (by simpa using mt (least.eq_iff high).mpr here)]

end least

/-! ## The scan -/

@[simp] theorem target_link (node : Option Nat) : target (link node) = node := by
  cases node with
  | none => rfl
  | some node =>
    have notNegative : ¬ ((node : Int) < 0) := by omega
    simp [target, link, notNegative]

@[simp] theorem toNat_link (node : Nat) : (link (some node)).toNat = node := rfl

theorem set_map_range (n place : Nat) (entry : Nat → Int) (value : Int) :
    ((List.range n).map entry).set place value =
      (List.range n).map (Function.update entry place value) := by
  apply List.ext_getElem (by simp)
  intro index low high
  rw [List.getElem_set, List.getElem_map, List.getElem_map, List.getElem_range]
  by_cases here : place = index
  · rw [if_pos here, here, Function.update_self]
  · rw [if_neg here, Function.update_of_ne (Ne.symm here)]

/-- The parents of an array: every parent comes before its children. -/
def OrderedParents (parents : List Int) : Prop :=
  ∀ node above, linkAt parents node = some above → above < node

section scan

variable {parents : List Int}

/-- The tables once so many nodes are seen. -/
def scanned (parents : List Int) (seen : Nat) : LinkScan where
  lastChild := (List.range parents.length).map (fun node =>
    link (children seen (linkAt parents) node).getLast?)
  nextToken := (List.range parents.length).map (fun node => link (firstChild seen (linkAt parents) node))
  nextSibling := (List.range parents.length).map (fun node =>
    link (nextSibling seen (linkAt parents) node))

theorem scanned_root (seen : Nat) (root : linkAt parents seen = none) :
    scanned parents (seen + 1) = scanned parents seen := by
  have same : ∀ start above, childrenFrom (seen + 1) (linkAt parents) start above =
      childrenFrom seen (linkAt parents) start above := by
    intro start above
    rw [childrenFrom_succ, if_neg (by simp [root])]
  simp [scanned, children, firstChild, nextSibling, same]

/-- The children of a parent get one more, and no other node does. -/
theorem childrenFrom_seen {seen above : Nat} (child : linkAt parents seen = some above)
    (start other : Nat) : childrenFrom (seen + 1) (linkAt parents) start other =
      if start ≤ seen ∧ other = above then childrenFrom seen (linkAt parents) start other ++ [seen]
      else childrenFrom seen (linkAt parents) start other := by
  rw [childrenFrom_succ, child]
  simp only [Option.some.injEq, eq_comm]

theorem lastChild_seen {seen above : Nat} (child : linkAt parents seen = some above) :
    (fun node => link (children (seen + 1) (linkAt parents) node).getLast?) =
      Function.update (fun node => link (children seen (linkAt parents) node).getLast?) above seen := by
  funext node
  rw [children, childrenFrom_seen child]
  by_cases here : node = above
  · rw [if_pos ⟨Nat.zero_le _, here⟩, List.getLast?_concat, here, Function.update_self]
    rfl
  · rw [if_neg (fun both => here both.2), Function.update_of_ne here]
    rfl

theorem nextToken_first {seen above : Nat} (child : linkAt parents seen = some above)
    (bare : children seen (linkAt parents) above = []) :
    (fun node => link (firstChild (seen + 1) (linkAt parents) node)) =
      Function.update (fun node => link (firstChild seen (linkAt parents) node)) above seen := by
  funext node
  rw [firstChild, childrenFrom_seen child]
  by_cases here : node = above
  · subst here
    rw [children] at bare
    rw [if_pos ⟨Nat.zero_le _, rfl⟩, bare, Function.update_self]
    rfl
  · rw [if_neg (fun both => here both.2), Function.update_of_ne here]
    rfl

theorem nextToken_later {seen above : Nat} (child : linkAt parents seen = some above)
    (bears : children seen (linkAt parents) above ≠ []) (node : Nat) :
    firstChild (seen + 1) (linkAt parents) node = firstChild seen (linkAt parents) node := by
  rw [firstChild, childrenFrom_seen child, firstChild]
  by_cases here : node = above
  · subst here
    rw [children] at bears
    rw [if_pos ⟨Nat.zero_le _, rfl⟩, List.head?_append_of_ne_nil _ bears]
  · rw [if_neg (fun both => here both.2)]

/-- A node gets a sibling only as the last child of the parent of the node seen. -/
theorem nextSibling_seen {seen above : Nat} (child : linkAt parents seen = some above) (node : Nat) :
    nextSibling (seen + 1) (linkAt parents) node =
      if (children seen (linkAt parents) above).getLast? = some node then some seen
      else nextSibling seen (linkAt parents) node := by
  by_cases sibling : linkAt parents node = some above
  · rw [nextSibling_child sibling, nextSibling_child sibling, childrenFrom_seen child]
    by_cases before : node + 1 ≤ seen
    · have listed : node ∈ childrenFrom seen (linkAt parents) 0 above := by
        simp [sibling, Nat.lt_of_succ_le before]
      have isLast := last_childrenFrom listed
      rw [if_pos ⟨before, rfl⟩, children]
      by_cases bare : childrenFrom seen (linkAt parents) (node + 1) above = []
      · rw [if_pos (isLast.mpr bare), bare]
        rfl
      · rw [if_neg (fun last => bare (isLast.mp last)), List.head?_append_of_ne_nil _ bare]
    · have unlisted : (children seen (linkAt parents) above).getLast? ≠ some node := by
        intro last
        have inside := (mem_children.mp (List.mem_of_getLast? last)).1
        omega
      rw [if_neg (fun both => before both.1), if_neg unlisted]
  · have unlisted : (children seen (linkAt parents) above).getLast? ≠ some node :=
      fun last => sibling (mem_children.mp (List.mem_of_getLast? last)).2
    rw [if_neg unlisted, nextSibling, nextSibling]
    cases other : linkAt parents node with
    | none => rfl
    | some up =>
      rw [Option.bind_some, Option.bind_some, childrenFrom_seen child]
      have apart : up ≠ above := by
        rintro rfl
        exact sibling other
      rw [if_neg (fun both => apart both.2)]

theorem visit_scanned (ordered : OrderedParents parents) (seen : Nat) (inside : seen < parents.length) :
    LinkScan.visit parents (scanned parents seen) seen = some (scanned parents (seen + 1)) := by
  have read : parents[seen]? = some parents[seen] := List.getElem?_eq_getElem inside
  by_cases root : parents[seen] < 0
  · have noParent : linkAt parents seen = none := by simp [linkAt, read, target, root]
    rw [LinkScan.visit, read, Option.bind_eq_bind, Option.bind_some, if_pos root, scanned_root _ noParent]
    rfl
  · have child : linkAt parents seen = some parents[seen].toNat := by
      simp [linkAt, read, target, root]
    have before := ordered _ _ child
    have lastRead : (scanned parents seen).lastChild[parents[seen].toNat]? =
        some (link (children seen (linkAt parents) parents[seen].toNat).getLast?) := by
      simp [scanned, Nat.lt_trans before inside]
    rw [LinkScan.visit, read, Option.bind_eq_bind, Option.bind_some, if_neg root, lastRead,
      Option.bind_some]
    cases last : (children seen (linkAt parents) parents[seen].toNat).getLast? with
    | none =>
      have bare := List.getLast?_eq_none_iff.mp last
      have sameSiblings : (fun node => link (nextSibling (seen + 1) (linkAt parents) node)) =
          fun node => link (nextSibling seen (linkAt parents) node) := by
        funext node
        rw [nextSibling_seen child, last, if_neg (by simp)]
      rw [if_pos (show link none < 0 by decide)]
      simp [scanned, set_map_range, lastChild_seen child, nextToken_first child bare, sameSiblings]
    | some final =>
      have bears := List.ne_nil_of_mem (List.mem_of_getLast? last)
      have newSiblings : (fun node => link (nextSibling (seen + 1) (linkAt parents) node)) =
          Function.update (fun node => link (nextSibling seen (linkAt parents) node)) final seen := by
        funext node
        rw [nextSibling_seen child, last]
        by_cases here : node = final
        · subst here
          rw [if_pos rfl, Function.update_self]
          rfl
        · rw [if_neg (by simpa using Ne.symm here), Function.update_of_ne here]
      rw [if_neg (show ¬ link (some final) < 0 by simp [link])]
      simp [scanned, set_map_range, lastChild_seen child, nextToken_later child bears, newSiblings]

theorem scan_scanned (ordered : OrderedParents parents) (seen : Nat) (inside : seen ≤ parents.length) :
    (List.range seen).foldlM (LinkScan.visit parents) (LinkScan.fresh parents.length) =
      some (scanned parents seen) := by
  induction seen with
  | zero =>
    have fresh : LinkScan.fresh parents.length = scanned parents 0 := by
      have bare : ∀ start above, childrenFrom 0 (linkAt parents) start above = [] := by
        intro start above
        simp [childrenFrom]
      have noSibling : ∀ node, nextSibling 0 (linkAt parents) node = none := by
        intro node
        simp [nextSibling, bare]
      simp [LinkScan.fresh, scanned, children, firstChild, bare, noSibling, link, List.map_const']
    rw [fresh]
    rfl
  | succ seen ih =>
    rw [List.range_succ, List.foldlM_append, ih (by omega)]
    simp [visit_scanned ordered seen (by omega)]

theorem parentsToNextTokenAndSibling_eq (ordered : OrderedParents parents) :
    parentsToNextTokenAndSibling parents =
      some ((List.range parents.length).map (fun node =>
          link (firstChild parents.length (linkAt parents) node)),
        (List.range parents.length).map (fun node =>
          link (nextSibling parents.length (linkAt parents) node))) := by
  rw [parentsToNextTokenAndSibling, scan_scanned ordered _ (Nat.le_refl _)]
  rfl

end scan

/-! ## The scatter and the pairs -/

/-- A scattered minimum is no greater than what was there and what is stored there, and one of
these. -/
theorem scatterAmin_spec (buffer : List Int) (entries : List (Int × Int))
    (inside : ∀ entry ∈ entries, 0 ≤ entry.1 ∧ entry.1.toNat < buffer.length) :
    ∃ result, scatterAmin buffer entries = some result ∧ result.length = buffer.length ∧
      ∀ address < buffer.length, result.getD address 0 ≤ buffer.getD address 0 ∧
        (∀ entry ∈ entries, entry.1 = address → result.getD address 0 ≤ entry.2) ∧
        (result.getD address 0 = buffer.getD address 0 ∨
          ∃ entry ∈ entries, entry.1 = address ∧ result.getD address 0 = entry.2) := by
  induction entries generalizing buffer with
  | nil => exact ⟨buffer, rfl, rfl, fun address within =>
      ⟨Int.le_refl _, by simp, .inl rfl⟩⟩
  | cons entry entries ih =>
    obtain ⟨positive, within⟩ := inside entry List.mem_cons_self
    have same : ∀ address : Nat, entry.1.toNat = address ↔ entry.1 = address := by
      intro address
      omega
    obtain ⟨result, scattered, sized, values⟩ :=
      ih (buffer.modify entry.1.toNat (min entry.2)) (by
        intro other member
        rw [List.length_modify]
        exact inside other (List.mem_cons_of_mem _ member))
    rw [List.length_modify] at sized values
    refine ⟨result, ?_, sized, ?_⟩
    · rw [scatterAmin, List.foldlM_cons, if_pos ⟨positive, within⟩]
      exact scattered
    · intro address addressInside
      obtain ⟨bound, stored, attained⟩ := values address addressInside
      have modified : (buffer.modify entry.1.toNat (min entry.2)).getD address 0 =
          if entry.1 = address then min entry.2 (buffer.getD address 0) else buffer.getD address 0 := by
        simp only [List.getD_eq_getElem?_getD, List.getElem?_modify, same]
        rw [List.getElem?_eq_getElem addressInside]
        split <;> simp
      rw [modified] at bound attained
      by_cases here : entry.1 = address
      · rw [if_pos here] at bound attained
        refine ⟨by omega, ?_, ?_⟩
        · intro other member there
          rcases List.mem_cons.mp member with rfl | later
          · omega
          · exact stored other later there
        · rcases attained with kept | ⟨other, member, there, value⟩
          · rcases Int.le_total entry.2 (buffer.getD address 0) with least | least
            · rw [Int.min_eq_left least] at kept
              exact .inr ⟨entry, List.mem_cons_self, here, kept⟩
            · rw [Int.min_eq_right least] at kept
              exact .inl kept
          · exact .inr ⟨other, List.mem_cons_of_mem _ member, there, value⟩
      · rw [if_neg here] at bound attained
        refine ⟨bound, ?_, ?_⟩
        · intro other member there
          rcases List.mem_cons.mp member with rfl | later
          · exact absurd there here
          · exact stored other later there
        · rcases attained with kept | ⟨other, member, there, value⟩
          · exact .inl kept
          · exact .inr ⟨other, List.mem_cons_of_mem _ member, there, value⟩

/-- The parents of a tree: minus one at the root, and an earlier node everywhere else. -/
structure TreeParents (n : Nat) (parents : List Int) : Prop where
  length : parents.length = n
  root : parents[0]? = some (-1)
  linked : ∀ node, 0 < node → node < n →
    ∃ above : Nat, parents[node]? = some (above : Int) ∧ above < node

/-- The parents of a tree with the root left out of the count. -/
def rawParents (parents : List Int) : List Int :=
  parents.map (fun parent => if parent < 0 then -1 else parent - 1)

namespace TreeParents

variable {n : Nat} {parents : List Int} (tree : TreeParents n parents)

include tree

theorem pos : 0 < n := by
  rw [← tree.length]
  exact (List.getElem?_eq_some_iff.mp tree.root).1

theorem top : linkAt parents 0 = none := by
  rw [linkAt, tree.root]
  rfl

theorem linkAt_node (node : Nat) (proper : 0 < node) (inside : node < n) :
    ∃ above : Nat, parents[node]? = some (above : Int) ∧ linkAt parents node = some above ∧
      above < node := by
  obtain ⟨above, read, before⟩ := tree.linked node proper inside
  refine ⟨above, read, ?_, before⟩
  rw [linkAt, read]
  exact target_link (some above)

theorem ordered : OrderedParents parents := by
  intro node above isParent
  by_cases proper : 0 < node
  · by_cases inside : node < n
    · obtain ⟨other, -, link, before⟩ := tree.linkAt_node node proper inside
      rw [isParent] at link
      obtain rfl := Option.some.inj link
      exact before
    · have beyond : parents[node]? = none := by
        rw [List.getElem?_eq_none_iff, tree.length]
        omega
      simp [linkAt, beyond] at isParent
  · obtain rfl : node = 0 := by omega
    rw [tree.top] at isParent
    exact absurd isParent (by simp)

/-- With the root in the count again, the root is below itself and every other node below its
parent. -/
theorem topoParent_raw (node : Nat) (inside : node < n) :
    topoParent ((rawParents parents).getD node 0) = ((linkAt parents node).getD 0 : Nat) := by
  by_cases proper : 0 < node
  · obtain ⟨above, read, isParent, -⟩ := tree.linkAt_node node proper inside
    rw [isParent, rawParents, List.getD_eq_getElem?_getD, List.getElem?_map, read]
    have notNegative : ¬ ((above : Int) < 0) := by omega
    have notRoot : ¬ ((above : Int) - 1 = -1) ∨ above = 0 := by omega
    simp only [Option.map_some, Option.getD_some, if_neg notNegative, topoParent]
    split <;> omega
  · obtain rfl : node = 0 := by omega
    rw [tree.top, rawParents, List.getD_eq_getElem?_getD, List.getElem?_map, tree.root]
    rfl

end TreeParents

section batch

variable {trees : List (List Int)} {n ridx : Nat} {parents : List Int}

theorem topoParentAt_row (row : trees[ridx]? = some parents) (tree : TreeParents n parents)
    (node : Nat) (inside : node < n) :
    topoParentAt (trees.map rawParents) ridx node = ((linkAt parents node).getD 0 : Nat) := by
  have read : (trees.map rawParents).getD ridx [] = rawParents parents := by
    rw [List.getD_eq_getElem?_getD, List.getElem?_map, row]
    rfl
  rw [topoParentAt, read, tree.topoParent_raw node inside]

theorem child_iff (tree : TreeParents n parents) (node above : Nat) (inside : node < n) :
    linkAt parents node = some above ↔ 0 < node ∧ (linkAt parents node).getD 0 = above := by
  by_cases proper : 0 < node
  · obtain ⟨other, -, isParent, -⟩ := tree.linkAt_node node proper inside
    simp [isParent, proper]
  · obtain rfl : node = 0 := by omega
    simp [tree.top]

theorem nextSiblingRow_eq (row : trees[ridx]? = some parents) (tree : TreeParents n parents) :
    nextSiblingRow (trees.map rawParents) n ridx =
      (List.range n).map (fun node => link (nextSibling n (linkAt parents) node)) := by
  apply List.map_congr_left
  intro node member
  have inside := List.mem_range.mp member
  have least := laneMin_least n (fun jp => node < jp ∧
    topoParentAt (trees.map rawParents) ridx node = topoParentAt (trees.map rawParents) ridx jp ∧
      1 ≤ node) (n + 1) tree.pos
  by_cases proper : 0 < node
  · obtain ⟨above, -, isParent, -⟩ := tree.linkAt_node node proper inside
    rw [nextSibling_child isParent]
    refine Least.link' (least.congr ?_) (by omega)
    intro other
    rw [mem_childrenFrom]
    constructor
    · rintro ⟨otherInside, behind, same, -⟩
      rw [topoParentAt_row row tree node inside, topoParentAt_row row tree other otherInside,
        isParent] at same
      refine ⟨behind, otherInside, (child_iff tree other above otherInside).mpr ⟨by omega, ?_⟩⟩
      exact_mod_cast same.symm
    · rintro ⟨behind, otherInside, sibling⟩
      refine ⟨otherInside, behind, ?_, proper⟩
      rw [topoParentAt_row row tree node inside, topoParentAt_row row tree other otherInside,
        isParent, sibling]
  · obtain rfl : node = 0 := by omega
    rw [nextSibling, tree.top, Option.bind_none]
    rcases least.attained with absent | ⟨other, ⟨-, -, -, impossible⟩, -⟩
    · exact if_pos absent
    · omega

theorem mem_nextTokenEntries (parentsAll : List (List Int)) (entry : Int × Int) :
    entry ∈ nextTokenEntries parentsAll n ↔ ∃ ridx < parentsAll.length, ∃ j < n,
      entry = ((ridx * n : Nat) + topoParentAt parentsAll ridx j, if 1 ≤ j then (j : Int) else n + 1) := by
  simp only [nextTokenEntries, List.mem_flatMap, List.mem_map, List.mem_range, eq_comm]

theorem topoParentAt_inside (all : ∀ parents ∈ trees, TreeParents n parents)
    (inside : ridx < trees.length) (node : Nat) (within : node < n) :
    ∃ above < n, topoParentAt (trees.map rawParents) ridx node = (above : Nat) := by
  have row : trees[ridx]? = some trees[ridx] := List.getElem?_eq_getElem inside
  have tree := all _ (List.mem_of_getElem? row)
  refine ⟨_, ?_, topoParentAt_row row tree node within⟩
  cases isParent : linkAt trees[ridx] node with
  | none => exact tree.pos
  | some above =>
    have before := tree.ordered node above isParent
    exact Nat.lt_trans before within

/-- The scatter leaves the least child of every node, in the row of its tree. -/
theorem nextTokenEntries_least (all : ∀ parents ∈ trees, TreeParents n parents) :
    ∃ nextTokBuf, scatterAmin (List.replicate (trees.length * n) (n + 1))
        (nextTokenEntries (trees.map rawParents) n) = some nextTokBuf ∧
      ∀ ridx parents, trees[ridx]? = some parents → ∀ node < n,
        Least (· ∈ childrenFrom n (linkAt parents) 0 node) (n + 1)
          (nextTokBuf.getD (ridx * n + node) 0) := by
  obtain ⟨nextTokBuf, scattered, -, values⟩ := scatterAmin_spec
    (List.replicate (trees.length * n) ((n : Int) + 1)) (nextTokenEntries (trees.map rawParents) n) (by
      intro entry member
      obtain ⟨ridx, inside, j, within, rfl⟩ := (mem_nextTokenEntries _ _).mp member
      rw [List.length_map] at inside
      obtain ⟨above, aboveInside, parent⟩ := topoParentAt_inside all inside j within
      have address := address_lt inside aboveInside
      rw [parent, List.length_replicate]
      constructor
      · omega
      · exact_mod_cast address)
  refine ⟨nextTokBuf, scattered, ?_⟩
  intro ridx parents row node nodeInside
  have tree := all _ (List.mem_of_getElem? row)
  have rowInside := (List.getElem?_eq_some_iff.mp row).1
  have addressInside := address_lt rowInside nodeInside
  obtain ⟨-, stored, attained⟩ := values (ridx * n + node) (by simpa using addressInside)
  refine ⟨?_, ?_⟩
  · intro child member
    obtain ⟨-, inside, isParent⟩ := mem_childrenFrom.mp member
    have parent := topoParentAt_row row tree child inside
    have proper := ((child_iff tree child node inside).mp isParent).1
    refine stored (((ridx * n : Nat) : Int) + node, (child : Int)) ?_ (by push_cast; rfl)
    refine (mem_nextTokenEntries _ _).mpr ⟨ridx, by simpa using rowInside, child, inside, ?_⟩
    rw [parent, isParent, if_pos (Nat.succ_le_of_lt proper)]
    rfl
  · rcases attained with kept | ⟨entry, member, there, value⟩
    · left
      rw [kept, List.getD_eq_getElem?_getD, List.getElem?_replicate, if_pos addressInside]
      rfl
    · obtain ⟨other, otherInside, j, within, rfl⟩ := (mem_nextTokenEntries _ _).mp member
      by_cases proper : 1 ≤ j
      · right
        refine ⟨j, ?_, by rw [value, if_pos proper]⟩
        rw [List.length_map] at otherInside
        obtain ⟨above, aboveInside, parent⟩ := topoParentAt_inside all otherInside j within
        simp only [parent] at there
        have sameAddress : other * n + above = ridx * n + node := by exact_mod_cast there
        obtain ⟨rfl, rfl⟩ := address_inj aboveInside nodeInside sameAddress
        rw [topoParentAt_row row tree j within] at parent
        refine mem_childrenFrom.mpr ⟨Nat.zero_le _, within, ?_⟩
        exact (child_iff tree j above within).mpr ⟨proper, by exact_mod_cast parent⟩
      · left
        rw [value, if_neg proper]

/-- The scatter and the comparison of pairs store the links of every tree of the batch. -/
theorem buildRetrieveLinksGpu_eq (raws : List (List Int)) (all : ∀ parents ∈ trees, TreeParents n parents)
    (nonempty : trees ≠ []) (truncated : raws.map (·.take n) = trees.map rawParents) :
    buildRetrieveLinksGpu raws n = some
      (trees.map (fun parents => (List.range n).map (fun node => link (firstChild n (linkAt parents) node))),
        trees.map (fun parents =>
          (List.range n).map (fun node => link (nextSibling n (linkAt parents) node)))) := by
  have count : raws.length = trees.length := by
    have lengths := congrArg List.length truncated
    rwa [List.length_map, List.length_map] at lengths
  have stacked : (trees.map rawParents).all (fun parents => parents.length = n) = true := by
    rw [List.all_eq_true]
    intro parents member
    obtain ⟨tree, listed, rfl⟩ := List.mem_map.mp member
    simp [rawParents, (all tree listed).length]
  have rows : ∀ build : Nat → List Int, ∀ expected : List Int → List Int,
      (∀ ridx parents, trees[ridx]? = some parents → build ridx = expected parents) →
      (List.range trees.length).map build = trees.map expected := by
    intro build expected same
    apply List.ext_getElem (by simp)
    intro index low high
    have inside : index < trees.length := by simpa using low
    rw [List.getElem_map, List.getElem_map, List.getElem_range]
    exact same index _ (List.getElem?_eq_getElem inside)
  obtain ⟨nextTokBuf, scattered, least⟩ := nextTokenEntries_least all
  have listed : ¬raws.isEmpty = true := by
    rwa [List.isEmpty_iff, ← List.length_eq_zero_iff, count, List.length_eq_zero_iff]
  rw [buildRetrieveLinksGpu, if_neg listed, truncated, count, if_pos stacked, scattered, Option.bind_eq_bind,
    Option.bind_some]
  refine congrArg some (Prod.ext ?_ ?_)
  · apply rows
    intro ridx parents row
    apply List.map_congr_left
    intro node member
    exact (least ridx parents row node (List.mem_range.mp member)).link' (by omega)
  · apply rows
    intro ridx parents row
    exact nextSiblingRow_eq row (all _ (List.mem_of_getElem? row))

end batch

/-! ## The programs of the link stage -/

section stage

variable {memory : LinkMemory} {strideKept strideOut N blockN b : Nat} {parent : Nat → Option Nat}

/-- What the link stage reads of a tree of the batch: the parents of its nodes in use, minus one
elsewhere, and the flags that tell which are in use. -/
structure LinkMemory.Holds (memory : LinkMemory) (strideKept strideOut N b : Nat)
    (parent : Nat → Option Nat) : Prop where
  root : parent 0 = none
  parents : ∀ node, node < N → memory.topoParents (b * strideOut + node) = link (parent node)
  valid : ∀ node, 0 < node → node < N →
    (memory.keptValid (b * strideKept + (node - 1)) = true ↔ parent node ≠ none)

/-- A candidate that passes the tests is a node with the parent asked for. -/
theorem LinkMemory.Holds.child_iff (holds : memory.Holds strideKept strideOut N b parent)
    (candidate : Nat) (inside : candidate < N) (above : Nat) :
    0 < candidate ∧ memory.keptValid (b * strideKept + (candidate - 1)) = true ∧
      memory.topoParents (b * strideOut + candidate) = above ↔ parent candidate = some above := by
  by_cases proper : 0 < candidate
  · rw [holds.valid candidate proper inside, holds.parents candidate inside]
    cases parent candidate with
    | none => simp [link]
    | some other => simp [link, proper]
  · obtain rfl : candidate = 0 := by omega
    simp [holds.root]

/-- A program stores the first child and the next sibling of its node. -/
theorem topologyLinksRowKernel_eq (holds : memory.Holds strideKept strideOut N b parent)
    (wide : N ≤ blockN) (q : Nat) (inside : q < N) :
    topologyLinksRowKernel memory strideKept strideOut N blockN (b * N + q) =
      ((b * strideOut + q, link (firstChild N parent q)),
        (b * strideOut + q, link (nextSibling N parent q))) := by
  have row : (b * N + q) / N = b := address_div inside
  have column : b * N + q - b * N = q := by omega
  have lanes : 0 < blockN := by omega
  simp only [topologyLinksRowKernel, row, column]
  refine Prod.ext (Prod.ext rfl ?_) (Prod.ext rfl ?_)
  · refine Least.link ((laneMin_least blockN _ (N + 1) lanes).congr ?_) (by omega)
    intro candidate
    rw [mem_childrenFrom]
    constructor
    · rintro ⟨-, proper, within, kept, same⟩
      rw [if_pos ⟨proper, within⟩] at kept
      rw [if_pos within] at same
      exact ⟨Nat.zero_le _, within, (holds.child_iff candidate within q).mp ⟨proper, kept, same⟩⟩
    · rintro ⟨-, within, isParent⟩
      obtain ⟨proper, kept, same⟩ := (holds.child_iff candidate within q).mpr isParent
      exact ⟨by omega, proper, within, by rwa [if_pos ⟨proper, within⟩], by rwa [if_pos within]⟩
  · have least := laneMin_least blockN (fun candidate =>
      0 < candidate ∧ candidate < N ∧
        (if 0 < candidate ∧ candidate < N then memory.keptValid (b * strideKept + (candidate - 1))
          else false) = true ∧ q < candidate ∧ 0 < q ∧
        (q = 0 ∨ (if 0 < q then memory.keptValid (b * strideKept + (q - 1)) else false) = true) ∧
        (if candidate < N then memory.topoParents (b * strideOut + candidate) else -1) =
          memory.topoParents (b * strideOut + q)) (N + 1) lanes
    cases isParent : parent q with
    | none =>
      rw [nextSibling, isParent, Option.bind_none]
      rcases least.attained with absent | ⟨candidate, ⟨-, -, -, -, -, proper, kept, -⟩, -⟩
      · simp only at absent ⊢
        rw [absent]
        exact if_neg (by omega)
      · rw [if_pos proper] at kept
        have impossible := (holds.valid q proper inside).mp (kept.resolve_left (by omega))
        exact absurd isParent impossible
    | some above =>
      obtain ⟨proper, kept, same⟩ := (holds.child_iff q inside above).mpr isParent
      rw [nextSibling_child isParent]
      refine Least.link (least.congr ?_) (by omega)
      intro candidate
      rw [mem_childrenFrom]
      constructor
      · rintro ⟨-, candidateProper, within, candidateKept, behind, -, -, sameParent⟩
        rw [if_pos ⟨candidateProper, within⟩] at candidateKept
        rw [if_pos within, same] at sameParent
        exact ⟨behind, within, (holds.child_iff candidate within above).mp
          ⟨candidateProper, candidateKept, sameParent⟩⟩
      · rintro ⟨behind, within, sibling⟩
        obtain ⟨candidateProper, candidateKept, sameParent⟩ :=
          (holds.child_iff candidate within above).mpr sibling
        refine ⟨by omega, candidateProper, within, ?_, behind, proper, .inr ?_, ?_⟩
        · rwa [if_pos ⟨candidateProper, within⟩]
        · rwa [if_pos proper]
        · rw [if_pos within, sameParent, same]

theorem topologyLinksRowKernel_place (memory : LinkMemory) (strideKept N blockN pid : Nat) :
    (topologyLinksRowKernel memory strideKept N N blockN pid).1.1 = pid ∧
      (topologyLinksRowKernel memory strideKept N N blockN pid).2.1 = pid := by
  have place : pid / N * N + (pid - pid / N * N) = pid := Nat.add_sub_cancel' (Nat.div_mul_le_self pid N)
  exact ⟨place, place⟩

/-- The memory after the link stage has the links of a tree in the rows of that tree. -/
theorem TopologyLinks.row {batch : Nat} {nextToken nextSibling nextToken' nextSibling' : Nat → Int}
    (launched : TopologyLinks memory batch strideKept N N blockN nextToken nextSibling nextToken'
      nextSibling')
    (wide : N ≤ blockN) (inBatch : b < batch) (holds : memory.Holds strideKept N N b parent) (q : Nat)
    (inside : q < N) :
    nextToken' (b * N + q) = link (firstChild N parent q) ∧
      nextSibling' (b * N + q) = link (ChildSibling.nextSibling N parent q) := by
  have own := topologyLinksRowKernel_eq holds wide q inside
  have listed : b * N + q ∈ List.range (batch * N) := List.mem_range.mpr (address_lt inBatch inside)
  constructor
  · apply launched.1.agreed
    · exact List.mem_map.mpr ⟨b * N + q, listed, by rw [own]⟩
    · intro entry member here
      obtain ⟨pid, -, rfl⟩ := List.mem_map.mp member
      rw [(topologyLinksRowKernel_place memory strideKept N blockN pid).1] at here
      rw [here, own]
  · apply launched.2.agreed
    · exact List.mem_map.mpr ⟨b * N + q, listed, by rw [own]⟩
    · intro entry member here
      obtain ⟨pid, -, rfl⟩ := List.mem_map.mp member
      rw [(topologyLinksRowKernel_place memory strideKept N blockN pid).2] at here
      rw [here, own]

end stage

/-! ## Decoding -/

theorem linkAt_table (n : Nat) (entry : Nat → Option Nat) (node : Nat) (inside : node < n) :
    linkAt ((List.range n).map (fun node => link (entry node))) node = entry node := by
  simp [linkAt, inside]

/-- Links that agree inside are followed alike, as long as they stay inside. -/
theorem follow_congr (n : Nat) (next other : Nat → Option Nat)
    (same : ∀ node < n, other node = next node)
    (inside : ∀ node below, node < n → next node = some below → below < n) (steps : Nat)
    (start : Option Nat) (startInside : ∀ node, start = some node → node < n) :
    follow other steps start = follow next steps start := by
  induction steps generalizing start with
  | zero => cases start <;> rfl
  | succ steps ih =>
    cases start with
    | none => rfl
    | some node =>
      have nodeInside := startInside node rfl
      rw [follow, follow, same node nodeInside,
        ih _ (fun below link => inside node below nodeInside link)]

/-- Tables of links are traversed like the links themselves, as long as these stay inside. -/
theorem traverse_table (n : Nat) (first next : Nat → Option Nat)
    (firstInside : ∀ node other, node < n → first node = some other → other < n)
    (nextInside : ∀ node other, node < n → next node = some other → other < n) (steps : Nat)
    (start : Option Nat) (startInside : ∀ node, start = some node → node < n) :
    traverse (linkAt ((List.range n).map (fun node => link (first node))))
        (linkAt ((List.range n).map (fun node => link (next node)))) steps start =
      traverse first next steps start := by
  induction steps generalizing start with
  | zero => cases start <;> rfl
  | succ steps ih =>
    cases start with
    | none => rfl
    | some node =>
      have nodeInside := startInside node rfl
      rw [ChildSibling.traverse, ChildSibling.traverse, linkAt_table n first node nodeInside,
        linkAt_table n next node nodeInside,
        ih _ (fun other link => firstInside node other nodeInside link),
        ih _ (fun other link => nextInside node other nodeInside link)]

theorem firstChild_inside (n : Nat) (parent : Nat → Option Nat) (node child : Nat)
    (first : firstChild n parent node = some child) : child < n :=
  (head_childrenFrom first).2.1

theorem nextSibling_inside (n : Nat) (parent : Nat → Option Nat) (node other : Nat)
    (next : nextSibling n parent node = some other) : other < n := by
  obtain ⟨above, -, first⟩ := Option.bind_eq_some_iff.mp next
  exact (head_childrenFrom first).2.1

/-- The links decode to the tree. In an array whose parents come before their children, the first
child of a node and then the siblings up to the end are the children of that node. In the array of
one tree the traversal from the root meets every node once, and the scan, the scatter and the
programs of the link stage store the same links, each in its own convention for the root and
whatever else is in the batch. -/
theorem links_decode (parents : List Int) (ordered : OrderedParents parents) :
    ∃ nextToken nextSibling, parentsToNextTokenAndSibling parents = some (nextToken, nextSibling) ∧
      nextToken.length = parents.length ∧ nextSibling.length = parents.length ∧
      (∀ v < parents.length, ∀ steps, parents.length ≤ steps →
        follow (linkAt nextSibling) steps (linkAt nextToken v) =
          some (children parents.length (linkAt parents) v)) ∧
      (TreeParents parents.length parents →
        (∀ steps, parents.length ≤ steps →
          ∃ order, traverse (linkAt nextToken) (linkAt nextSibling) steps (some 0) = some order ∧
            order.Perm (List.range parents.length)) ∧
        (∀ (trees raws : List (List Int)) (ridx : Nat),
          (∀ other ∈ trees, TreeParents parents.length other) → trees[ridx]? = some parents →
          raws.map (·.take parents.length) = trees.map rawParents →
          ∃ tokens siblings, buildRetrieveLinksGpu raws parents.length = some (tokens, siblings) ∧
            tokens[ridx]? = some nextToken ∧ siblings[ridx]? = some nextSibling) ∧
        ∀ (memory : LinkMemory) (batch b strideKept blockN : Nat)
          (tokens siblings tokens' siblings' : Nat → Int), parents.length ≤ blockN → b < batch →
          (∀ node (inside : node < parents.length),
            memory.topoParents (b * parents.length + node) = parents[node]) →
          (∀ node, 0 < node → node < parents.length →
            memory.keptValid (b * strideKept + (node - 1)) = true) →
          TopologyLinks memory batch strideKept parents.length parents.length blockN tokens siblings
            tokens' siblings' →
          (List.range parents.length).map (fun node => tokens' (b * parents.length + node)) = nextToken ∧
            (List.range parents.length).map (fun node => siblings' (b * parents.length + node)) =
              nextSibling) := by
  refine ⟨_, _, parentsToNextTokenAndSibling_eq ordered, by simp, by simp, ?_, ?_⟩
  · intro v inside steps enough
    rw [linkAt_table _ _ v inside, follow_congr _ _ _ (linkAt_table _ _)
      (fun node other _ => nextSibling_inside _ _ node other) _ _ (firstChild_inside _ _ v)]
    exact follow_children steps enough
  · intro tree
    refine ⟨?_, ?_, ?_⟩
    · intro steps enough
      rw [traverse_table _ _ _ (fun node other _ => firstChild_inside _ _ node other)
        (fun node other _ => nextSibling_inside _ _ node other) steps (some 0)
        (by rintro node ⟨⟩; exact tree.pos)]
      refine traverse_tree ordered steps enough tree.pos tree.top ?_
      intro node proper inside
      obtain ⟨above, -, link, -⟩ := tree.linkAt_node node proper inside
      simp [link]
    · intro trees raws ridx all row truncated
      have nonempty : trees ≠ [] := List.ne_nil_of_mem (List.mem_of_getElem? row)
      refine ⟨_, _, buildRetrieveLinksGpu_eq raws all nonempty truncated, ?_, ?_⟩ <;>
        rw [List.getElem?_map, row] <;> rfl
    · intro memory batch b strideKept blockN tokens siblings tokens' siblings' wide inBatch stored
        kept launched
      have holds : memory.Holds strideKept parents.length parents.length b (linkAt parents) := by
        refine ⟨tree.top, ?_, ?_⟩
        · intro node inside
          rw [stored node inside]
          by_cases proper : 0 < node
          · obtain ⟨above, read, isParent, -⟩ := tree.linkAt_node node proper inside
            rw [isParent]
            exact (List.getElem?_eq_some_iff.mp read).2
          · obtain rfl : node = 0 := by omega
            rw [tree.top]
            exact (List.getElem?_eq_some_iff.mp tree.root).2
        · intro node proper inside
          obtain ⟨above, -, isParent, -⟩ := tree.linkAt_node node proper inside
          simp [kept node proper inside, isParent]
      constructor
      · apply List.map_congr_left
        intro node member
        exact (launched.row wide inBatch holds node (List.mem_range.mp member)).1
      · apply List.map_congr_left
        intro node member
        exact (launched.row wide inBatch holds node (List.mem_range.mp member)).2

/-- The parents of a tree whose second level is listed before the root's last child. -/
def branchedParents : List Int := [-1, 0, 1, 0, 1]

theorem branchedParents_ordered : OrderedParents branchedParents := by
  intro node above isParent
  rcases node with _ | _ | _ | _ | _ | node <;>
    simp [branchedParents, linkAt, target] at isParent <;> omega

/-- The links of that tree decode. -/
theorem links_decode_branched :
    OrderedParents branchedParents ∧ ∃ nextToken nextSibling,
      parentsToNextTokenAndSibling branchedParents = some (nextToken, nextSibling) ∧
        follow (linkAt nextSibling) 5 (linkAt nextToken 0) = some [1, 3] ∧
        ∃ order, traverse (linkAt nextToken) (linkAt nextSibling) 5 (some 0) = some order ∧
          order.Perm (List.range 5) := by
  obtain ⟨nextToken, nextSibling, scan, -, -, decoded, whole⟩ :=
    links_decode branchedParents branchedParents_ordered
  have tree : TreeParents 5 branchedParents := by
    refine ⟨rfl, rfl, ?_⟩
    intro node proper inside
    rcases node with _ | _ | _ | _ | _ | node
    · omega
    · exact ⟨0, rfl, by decide⟩
    · exact ⟨1, rfl, by decide⟩
    · exact ⟨0, rfl, by decide⟩
    · exact ⟨1, rfl, by decide⟩
    · omega
  exact ⟨branchedParents_ordered, nextToken, nextSibling, scan, decoded 0 (by decide) 5 (by decide),
    (whole tree).1 5 (by decide)⟩

end SpecBlock.Serving
