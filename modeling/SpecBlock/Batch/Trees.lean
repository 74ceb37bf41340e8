import Mathlib.Data.List.Basic
import Mathlib.Data.List.TakeWhile

/-!
# Draft trees and their packing

A draft tree is handed over as tensors: node tokens with the root first, an
ancestor mask, node depths, and `retrieve_indices`, whose rows are root-to-leaf
node paths padded with `-1`. Nodes are named by their position in the token
row, so a row of `retrieve_indices` is a list of integers.

`Tree.WellFormed` states what a builder promises about these tensors. The path
of a node is read off `retrieve_indices` itself, the only encoding of topology
that acceptance consults.
-/

namespace SpecBlock.Batch

/-- A two-dimensional index tensor: every row has the declared width. -/
structure RetrieveIndices where
  rows : List (List Int)
  width : Nat
  rectangular : ∀ row ∈ rows, row.length = width

/-- The entries of `TreeResult` that verification reads. -/
structure Tree where
  tokens : List Nat
  mask : List (List Bool)
  depths : List Nat
  retrieve : RetrieveIndices

namespace Tree

/-- Number of staged nodes, the root included. -/
def width (tree : Tree) : Nat := tree.tokens.length

/-- Tokens along a list of node indices. -/
def tokensAt (tree : Tree) (path : List Nat) : List Nat :=
  path.map (fun node => tree.tokens.getD node 0)

/-- The node path from the root to a node, as the first retrieve row through it
lists it. -/
def rootPath (tree : Tree) (node : Nat) : Option (List Nat) :=
  (tree.retrieve.rows.find? (fun row => row.contains (node : Int))).map
    (fun row => (row.take (row.idxOf (node : Int) + 1)).map Int.toNat)

/-- What a builder promises: the root carries the current token, every retrieve
row is a node path starting at the root and padded with `-1`, and every row
spells the root path of each node it visits. -/
structure WellFormed (tree : Tree) (current : Nat) : Prop where
  root : tree.tokens.head? = some current
  nonempty : tree.retrieve.rows ≠ []
  rows : ∀ row ∈ tree.retrieve.rows, ∃ path : List Nat, ∃ padding : Nat,
    row = path.map Int.ofNat ++ List.replicate padding (-1) ∧
    path.head? = some 0 ∧ ∀ node ∈ path, node < tree.width
  spells : ∀ row ∈ tree.retrieve.rows, ∀ position (node : Nat),
    row[position]? = some (node : Int) →
      tree.rootPath node = some ((row.take (position + 1)).map Int.toNat)

theorem WellFormed.width_pos {tree : Tree} {current : Nat} (wellFormed : tree.WellFormed current) :
    0 < tree.width := by
  have root := wellFormed.root
  cases shape : tree.tokens with
  | nil => simp [shape] at root
  | cons token rest => simp [width, shape]

theorem WellFormed.rootPath_inside {tree : Tree} {current node : Nat} {path : List Nat}
    (wellFormed : tree.WellFormed current) (rooted : tree.rootPath node = some path) :
    node < tree.width := by
  obtain ⟨row, found, -⟩ := Option.map_eq_some_iff.mp rooted
  have onRow : (node : Int) ∈ row := by simpa using List.find?_some found
  obtain ⟨nodes, padding, shape, -, inside⟩ := wellFormed.rows row (List.mem_of_find?_eq_some found)
  rw [shape, List.mem_append, List.mem_map] at onRow
  rcases onRow with ⟨other, member, same⟩ | sentinel
  · obtain rfl : other = node := Int.ofNat_inj.mp same
    exact inside other member
  · have negative : (node : Int) = -1 := List.eq_of_mem_replicate sentinel
    omega

/-- The smallest speculative tree: one guess after the current token. -/
def pair (current guess : Nat) : Tree where
  tokens := [current, guess]
  mask := [[true, false], [true, true]]
  depths := [0, 1]
  retrieve := ⟨[[0, 1]], 2, by decide⟩

theorem pair_wellFormed (current guess : Nat) : (pair current guess).WellFormed current := by
  refine ⟨rfl, by simp [pair], ?_, ?_⟩
  · intro row member
    obtain rfl : row = [0, 1] := by simpa [pair] using member
    exact ⟨[0, 1], 0, rfl, rfl, by simp [pair, width]⟩
  · intro row member position node read
    obtain rfl : row = [0, 1] := by simpa [pair] using member
    match position, read with
    | 0, read =>
      obtain rfl : 0 = node := by
        have same : (0 : Int) = node := by simpa using read
        omega
      rfl
    | 1, read =>
      obtain rfl : 1 = node := by
        have same : (1 : Int) = node := by simpa using read
        omega
      rfl
    | position + 2, read => simp at read

/-- The promises of a builder, evaluated on a tree. -/
def checked (tree : Tree) (current : Nat) : Bool :=
  decide (tree.tokens.head? = some current) && !tree.retrieve.rows.isEmpty &&
    tree.retrieve.rows.all (fun row =>
      let path := (row.takeWhile (fun index => decide (0 ≤ index))).map Int.toNat
      decide (row = path.map Int.ofNat ++ List.replicate (row.length - path.length) (-1)) &&
        decide (path.head? = some 0) && path.all (fun node => decide (node < tree.width)) &&
        (List.range row.length).all (fun position =>
          decide (0 ≤ row.getD position (-1) → tree.rootPath (row.getD position (-1)).toNat =
            some ((row.take (position + 1)).map Int.toNat))))

theorem checked_wellFormed (tree : Tree) (current : Nat) (check : tree.checked current = true) :
    tree.WellFormed current := by
  simp only [checked, Bool.and_eq_true, decide_eq_true_eq, Bool.not_eq_true',
    List.isEmpty_eq_false_iff, List.all_eq_true, List.mem_range] at check
  obtain ⟨⟨root, nonempty⟩, rows⟩ := check
  refine ⟨root, nonempty, ?_, ?_⟩
  · intro row member
    obtain ⟨⟨⟨shape, first⟩, inside⟩, -⟩ := rows row member
    exact ⟨_, _, shape, first, inside⟩
  · intro row member position node read
    have bound : position < row.length := (List.getElem?_eq_some_iff.mp read).1
    have spells := (rows row member).2 position bound
    rw [List.getD_eq_getElem?_getD, read] at spells
    exact spells (Int.natCast_nonneg node)

end Tree

/-- Largest entry of a list of sizes, zero for no entry. -/
def maximum (sizes : List Nat) : Nat := sizes.max?.getD 0

/-- `torch.argmax`: the first position of the largest entry. -/
def argmaxFirst (sizes : List Nat) : Nat := sizes.idxOf (maximum sizes)

theorem maximum_spec (sizes : List Nat) (nonempty : sizes ≠ []) :
    maximum sizes ∈ sizes ∧ ∀ size ∈ sizes, size ≤ maximum sizes := by
  cases largest : sizes.max? with
  | none => exact absurd (List.max?_eq_none_iff.mp largest) nonempty
  | some size =>
    rw [show maximum sizes = size by simp [maximum, largest]]
    exact List.max?_eq_some_iff.mp largest

theorem le_maximum (sizes : List Nat) (size : Nat) (member : size ∈ sizes) :
    size ≤ maximum sizes := (maximum_spec sizes (List.ne_nil_of_mem member)).2 size member

theorem maximum_le (sizes : List Nat) (bound : Nat) (bounded : ∀ size ∈ sizes, size ≤ bound) :
    maximum sizes ≤ bound := by
  by_cases empty : sizes = []
  · rw [empty]
    exact Nat.zero_le bound
  · exact bounded _ (maximum_spec sizes empty).1

/-- The first largest position exists and reads the largest entry. -/
theorem argmaxFirst_spec (sizes : List Nat) (nonempty : sizes ≠ []) :
    sizes[argmaxFirst sizes]? = some (maximum sizes) := by
  have inside : argmaxFirst sizes < sizes.length :=
    List.idxOf_lt_length_iff.mpr (maximum_spec sizes nonempty).1
  rw [List.getElem?_eq_getElem inside, Option.some_inj]
  exact List.getElem_idxOf inside

theorem argmaxFirst_zero (sizes : List Nat) (zero : maximum sizes = 0) :
    argmaxFirst sizes = 0 := by
  cases sizes with
  | nil => rfl
  | cons size rest =>
    have bound : size ≤ maximum (size :: rest) := le_maximum _ size List.mem_cons_self
    have same : size = maximum (size :: rest) := by omega
    simp [argmaxFirst, ← same]

/-- Pad one request's retrieve rows to the batch's path count and path width. -/
def padRetrieve (maxPaths maxPathWidth : Nat) (retrieve : RetrieveIndices) : List (List Int) :=
  retrieve.rows.map (fun row => row ++ List.replicate (maxPathWidth - retrieve.width) (-1)) ++
    List.replicate (maxPaths - retrieve.rows.length) (List.replicate maxPathWidth (-1))

/-- `_pack_trees`: right-padded token and position rows, and the tree widths. -/
structure PackedTrees where
  inputIds : List (List Nat)
  positionIds : List (List Nat)
  widths : List Nat
  treeWidth : Nat

/-- Stage one tree per request, each with its logical prefix length. -/
def packTrees (requests : List (Tree × Nat)) (padTokenId : Nat) : PackedTrees :=
  let widths := requests.map (fun request => request.1.width)
  let treeWidth := maximum widths
  { inputIds := requests.map (fun request =>
      request.1.tokens ++ List.replicate (treeWidth - request.1.width) padTokenId)
    positionIds := requests.map (fun request =>
      (request.1.depths.take request.1.width).map (· + request.2) ++
        List.replicate (treeWidth - request.1.width) request.2)
    widths := widths
    treeWidth := treeWidth }

theorem width_le_treeWidth (requests : List (Tree × Nat)) (padTokenId : Nat)
    (request : Tree × Nat) (member : request ∈ requests) :
    request.1.width ≤ (packTrees requests padTokenId).treeWidth :=
  le_maximum _ _ (List.mem_map.mpr ⟨request, member, rfl⟩)

theorem packed_token (requests : List (Tree × Nat)) (padTokenId row node : Nat)
    (request : Tree × Nat) (read : requests[row]? = some request)
    (inside : node < request.1.width) :
    ((packTrees requests padTokenId).inputIds.getD row []).getD node 0 =
      request.1.tokens.getD node 0 := by
  have inTokens : node < request.1.tokens.length := inside
  simp [packTrees, List.getD_eq_getElem?_getD, read, List.getElem?_append_left inTokens]

end SpecBlock.Batch
