import SpecBlock.Batch.Proposals

/-!
# The greedy path of a tree

Greedy acceptance scores a leaf by the length its path agrees with the choices
at its nodes, takes the first leaf that agrees longest, and accepts its path as
far as it agrees. The tree and the choices alone decide this path: padding,
the rows around it and the request's batch do not enter.

The scores `pathAcceptLengths` reads off the padded rows are these agreements.
-/

namespace SpecBlock.Batch

/-- A path of nodes each of which has its front as root path. -/
def Branch (tree : Tree) (path : List Nat) : Prop :=
  ∀ position node, path[position]? = some node → tree.rootPath node = some (path.take (position + 1))

theorem path_branch {tree : Tree} {current leaf : Nat} (wellFormed : tree.WellFormed current) :
    Branch tree (tree.path leaf) :=
  fun position node read => wellFormed.rootPath_path leaf position node read

theorem Branch.take {tree : Tree} {path : List Nat} (branch : Branch tree path) (count : Nat) :
    Branch tree (path.take count) := by
  intro position node read
  rw [List.getElem?_take] at read
  split at read
  next before =>
    rw [branch position node read, List.take_take, Nat.min_eq_left before]
  next => cases read

theorem Branch.last {tree : Tree} {path : List Nat} (branch : Branch tree path) (nonempty : path ≠ []) :
    tree.rootPath (path.getLastD 0) = some path := by
  obtain ⟨front, last, rfl⟩ := (List.eq_nil_or_concat path).resolve_left nonempty
  have rooted := branch front.length last (by simp)
  rw [List.take_of_length_le (by simp)] at rooted
  simpa using rooted

section selection

variable (tree : Tree) (choice : Nat → Nat)

/-- How far a leaf path agrees with the choices at its nodes. -/
def agreement (leaf : Nat) : Nat :=
  leadingAgreements (((tree.path leaf).zip (tree.path leaf).tail).map (fun edge =>
    tree.tokens.getD edge.2 0 == choice edge.1))

/-- The first leaf that agrees longest. -/
def bestLeaf : Nat := argmaxFirst ((List.range tree.retrieve.rows.length).map (agreement tree choice))

/-- The path that is accepted. -/
def acceptedPath : List Nat :=
  (tree.path (bestLeaf tree choice)).take (agreement tree choice (bestLeaf tree choice) + 1)

variable {tree choice}

theorem leadingAgreements_failures (flags : List Bool) (count : Nat) :
    leadingAgreements (flags ++ List.replicate count false) = leadingAgreements flags := by
  rw [leadingAgreements_eq, leadingAgreements_eq]
  induction flags with
  | nil => cases count <;> simp [List.replicate_succ]
  | cons flag rest ih => cases flag <;> simp [ih]

theorem agreement_lt {current leaf : Nat} (wellFormed : tree.WellFormed current)
    (inside : leaf < tree.retrieve.rows.length) : agreement tree choice leaf < (tree.path leaf).length := by
  have root := (wellFormed.row_path leaf inside).2.1
  have nodes : tree.path leaf ≠ [] := fun none => by simp [none] at root
  have positive := List.length_pos_iff.mpr nodes
  have bound : agreement tree choice leaf ≤ (tree.path leaf).length - 1 := by
    rw [agreement, leadingAgreements_eq]
    refine (List.takeWhile_sublist _).length_le.trans ?_
    rw [List.length_map, List.length_zip, List.length_tail]
    exact Nat.min_le_right _ _
  omega

/-- The leaves agree alike under choices that are the same at the nodes of their paths. -/
theorem agreement_congr {other : Nat → Nat} {leaf : Nat}
    (same : ∀ node ∈ tree.path leaf, other node = choice node) :
    agreement tree other leaf = agreement tree choice leaf := by
  unfold agreement
  refine congrArg leadingAgreements (List.map_congr_left fun edge listed => ?_)
  rw [same edge.1 (List.of_mem_zip listed).1]

/-- The best leaf is one of the tree's, and no leaf agrees longer. -/
theorem bestLeaf_spec {current : Nat} (wellFormed : tree.WellFormed current) :
    bestLeaf tree choice < tree.retrieve.rows.length ∧
      maximum ((List.range tree.retrieve.rows.length).map (agreement tree choice)) =
        agreement tree choice (bestLeaf tree choice) := by
  have leaves : (List.range tree.retrieve.rows.length).map (agreement tree choice) ≠ [] := by
    simpa using wellFormed.nonempty
  have best := argmaxFirst_spec _ leaves
  rw [← bestLeaf] at best
  have inside : bestLeaf tree choice < tree.retrieve.rows.length := by
    simpa using (List.getElem?_eq_some_iff.mp best).1
  rw [List.getElem?_map, List.getElem?_range inside] at best
  exact ⟨inside, (Option.some.inj best).symm⟩

/-- The accepted path is a branch, one node longer than the best leaf agrees. -/
theorem acceptedPath_branch {current : Nat} (wellFormed : tree.WellFormed current) :
    Branch tree (acceptedPath tree choice) ∧
      (acceptedPath tree choice).length = agreement tree choice (bestLeaf tree choice) + 1 := by
  have onPath := @agreement_lt tree choice _ _ wellFormed (@bestLeaf_spec tree choice _ wellFormed).1
  exact ⟨(path_branch wellFormed).take _, by rw [acceptedPath, List.length_take, Nat.min_eq_left onPath]⟩

/-- It starts at the root. -/
theorem acceptedPath_root {current : Nat} (wellFormed : tree.WellFormed current) :
    (acceptedPath tree choice)[0]? = some 0 := by
  obtain ⟨-, root, -⟩ := wellFormed.row_path _ (@bestLeaf_spec tree choice _ wellFormed).1
  rwa [acceptedPath, List.getElem?_take, if_pos (Nat.succ_pos _), ← List.head?_eq_getElem?]

/-- Each of its nodes carries the choice at the node before. -/
theorem acceptedPath_agrees {position parent child : Nat}
    (parentRead : (acceptedPath tree choice)[position]? = some parent)
    (childRead : (acceptedPath tree choice)[position + 1]? = some child) :
    tree.tokens.getD child 0 = choice parent := by
  rw [acceptedPath, List.getElem?_take] at parentRead childRead
  split at childRead
  next within =>
    rw [if_pos (Nat.lt_of_succ_lt within)] at parentRead
    have agreed := agreement_of_lt _ position (Nat.lt_of_succ_lt_succ within)
    have edge : ((tree.path (bestLeaf tree choice)).zip (tree.path (bestLeaf tree choice)).tail)[position]? =
        some (parent, child) :=
      List.getElem?_zip_eq_some.mpr ⟨parentRead, (List.getElem?_tail ..).trans childRead⟩
    rw [List.getElem?_map, edge] at agreed
    simpa using agreed
  next => cases childRead

/-- It ends at the node of the best leaf's path where the agreement stops. -/
theorem acceptedPath_last {current : Nat} (wellFormed : tree.WellFormed current) :
    (tree.path (bestLeaf tree choice))[agreement tree choice (bestLeaf tree choice)]? =
      some ((acceptedPath tree choice).getLastD 0) := by
  have onPath := @agreement_lt tree choice _ _ wellFormed (@bestLeaf_spec tree choice _ wellFormed).1
  rw [acceptedPath, List.getLastD_eq_getLast?, List.getLast?_take, if_neg (Nat.succ_ne_zero _),
    Nat.add_sub_cancel, List.getElem?_eq_getElem onPath]
  rfl

end selection

section scores

theorem natCast_beq (left right : Nat) : ((left : Int) == (right : Int)) = (left == right) := by
  rw [Bool.eq_iff_iff, beq_iff_eq, beq_iff_eq, Int.natCast_inj]

variable {tokens argmax : List Nat} {topk : List (List Nat)} {lastNode : Nat}

/-- The first entry of the agreement row compares the second node's token with the first node's choice. -/
theorem posterior_cons (first second : Int) (row : List Int) :
    posterior 1 lastNode tokens.length tokens argmax topk (first :: second :: row) =
      ((tokens.map Int.ofNat ++ [-1]).getD (if 0 ≤ second then second.toNat else tokens.length) (-1) ==
        ((argmax.getD (if 0 ≤ first then first.toNat else lastNode) 0 : Nat) : Int)) ::
      posterior 1 lastNode tokens.length tokens argmax topk (second :: row) := by
  simp only [posterior, Nat.lt_irrefl, if_false]
  rfl

/-- Padding behind a node agrees with nothing: it reads the sentinel. -/
theorem posterior_padding (first : Int) (padding : Nat) :
    posterior 1 lastNode tokens.length tokens argmax topk (first :: List.replicate padding (-1)) =
      List.replicate padding false := by
  induction padding generalizing first with
  | zero => rfl
  | succ padding ih =>
    have sentinel : (tokens.map Int.ofNat ++ [-1]).getD tokens.length (-1) = -1 := by
      simp [List.getD_eq_getElem?_getD]
    have refused (choice : Nat) : ((-1 : Int) == (choice : Int)) = false := by
      rw [beq_eq_false_iff_ne]
      omega
    rw [List.replicate_succ, posterior_cons, ih, if_neg (by decide), sentinel, refused, List.replicate_succ]

theorem posterior_path (path : List Nat) (padding : Nat) (nonempty : path ≠ [])
    (inside : ∀ node ∈ path, node < tokens.length) :
    posterior 1 lastNode tokens.length tokens argmax topk
        (path.map Int.ofNat ++ List.replicate padding (-1)) =
      (path.zip path.tail).map (fun edge => tokens.getD edge.2 0 == argmax.getD edge.1 0) ++
        List.replicate padding false := by
  induction path with
  | nil => exact absurd rfl nonempty
  | cons parent rest ih =>
    cases rest with
    | nil => exact posterior_padding _ padding
    | cons child rest =>
      have later := ih (List.cons_ne_nil _ _) fun node onPath => inside node (List.mem_cons_of_mem _ onPath)
      have genuine : child < tokens.length := inside child (by simp)
      have token : (tokens.map Int.ofNat ++ [-1]).getD child (-1) = ((tokens.getD child 0 : Nat) : Int) := by
        simp [List.getD_eq_getElem?_getD, List.getElem?_append_left, genuine]
      have real (node : Nat) : (0 : Int) ≤ Int.ofNat node := Int.natCast_nonneg node
      rw [List.map_cons, List.map_cons, List.cons_append, List.cons_append, posterior_cons, ← List.cons_append,
        ← List.map_cons, later, if_pos (real child), if_pos (real parent), Int.ofNat_eq_natCast,
        Int.ofNat_eq_natCast, Int.toNat_natCast, Int.toNat_natCast, token, natCast_beq]
      rfl

/-- The scores of a well-formed tree's rows are the agreements of its leaves. -/
theorem pathAcceptLengths_eq {tree : Tree} {current : Nat} (choice : Nat → Nat) (topk : List (List Nat))
    (lastNode : Nat) (wellFormed : tree.WellFormed current) :
    pathAcceptLengths 1 lastNode tree.width tree.tokens ((List.range tree.width).map choice) topk
        tree.retrieve.rows =
      (List.range tree.retrieve.rows.length).map (agreement tree choice) := by
  refine List.ext_getElem (by simp [pathAcceptLengths]) fun leaf low high => ?_
  have inside : leaf < tree.retrieve.rows.length := by simpa using high
  obtain ⟨⟨padding, shape⟩, root, bounded⟩ := wellFormed.row_path leaf inside
  have nonempty : tree.path leaf ≠ [] := fun none => by simp [none] at root
  have row : tree.retrieve.rows[leaf] =
      (tree.path leaf).map Int.ofNat ++ List.replicate padding (-1) := by
    rw [← shape, List.getD_eq_getElem?_getD, List.getElem?_eq_getElem inside]
    rfl
  have same : ∀ node ∈ tree.path leaf, ((List.range tree.width).map choice).getD node 0 = choice node := by
    intro node onPath
    simp [List.getD_eq_getElem?_getD, bounded node onPath]
  have scored : leadingAgreements (posterior 1 lastNode tree.width tree.tokens
      ((List.range tree.width).map choice) topk tree.retrieve.rows[leaf]) =
      agreement tree (fun node => ((List.range tree.width).map choice).getD node 0) leaf := by
    rw [row, Tree.width, posterior_path _ _ nonempty bounded, leadingAgreements_failures, agreement]
  simp only [pathAcceptLengths, List.getElem_map, List.getElem_range]
  rw [scored, agreement_congr same]

end scores

end SpecBlock.Batch
