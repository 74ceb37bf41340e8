import Mathlib.Data.Set.Finite.Lemmas
import Mathlib.Order.Basic
import Mathlib.Tactic.Common

/-!
# Merging equal branches of a forest level by level

A pass over a level merges the nodes of that level that carry one token under one parent: the
node of the best score stays, the others are struck out, and their children move under the one
that stays. Merging makes children of different parents siblings, so a pass can only be judged
together with the passes before it.

What a sequence of passes has merged is an equivalence of the original nodes that relates two
nodes of a level when they carry the same token and their parents are related already. The
forest as it stands represents this equivalence: every node hangs under the best node that its
original parent is merged with, and the nodes that are left are the best of their classes.
Merged nodes spell the same tokens, so no branch is lost. Levels above the last one keep no
duplicates; nodes of the last level were duplicates only of those under their own parent.
-/

namespace SpecBlock.Merging

variable {α T L : Type}

/-- The tokens on the way down to a node. -/
inductive Spells (above : α → Option α) (token : α → T) : α → List T → Prop
  | top (node : α) (first : above node = none) : Spells above token node [token node]
  | under (node upper : α) (tokens : List T) (link : above node = some upper)
      (rest : Spells above token upper tokens) : Spells above token node (tokens ++ [token node])

/-- The nodes merged by the passes over the first levels. -/
def Merged (level : α → Nat) (above : α → Option α) (token : α → T) : Nat → α → α → Prop
  | 0, first, second => first = second
  | pass + 1, first, second =>
    if level first = pass + 1 then
      level second = pass + 1 ∧ token first = token second ∧
        ∃ upper upper', above first = some upper ∧ above second = some upper' ∧
          Merged level above token pass upper upper'
    else Merged level above token pass first second

/-- Levels count the links to the top, as far as the last level. -/
structure Levelled (level : α → Nat) (above : α → Option α) (last : Nat) : Prop where
  some_level : 0 < last
  top : ∀ node, above node = none → level node = 0
  below : ∀ node upper, above node = some upper → level node = min last (level upper + 1)

section classes

variable {level : α → Nat} {above : α → Option α} {token : α → T} {last pass : Nat}
  {first second third : α}

theorem Levelled.parent (levels : Levelled level above last) (node : α) (low : 0 < level node) :
    ∃ upper, above node = some upper := by
  cases link : above node with
  | none => exact absurd (levels.top node link) low.ne'
  | some upper => exact ⟨upper, rfl⟩

theorem Merged.level_eq (merged : Merged level above token pass first second) :
    level first = level second := by
  induction pass with
  | zero => exact congrArg level merged
  | succ pass ih =>
    unfold Merged at merged
    split at merged
    next here => exact here.trans merged.1.symm
    next => exact ih merged

theorem merged_succ_of_ne (other : level first ≠ pass + 1) :
    Merged level above token (pass + 1) first second ↔ Merged level above token pass first second := by
  conv_lhs => unfold Merged
  rw [if_neg other]

theorem merged_succ_of_eq (here : level first = pass + 1) :
    Merged level above token (pass + 1) first second ↔
      level second = pass + 1 ∧ token first = token second ∧
        ∃ upper upper', above first = some upper ∧ above second = some upper' ∧
          Merged level above token pass upper upper' := by
  conv_lhs => unfold Merged
  rw [if_pos here]

theorem Merged.eq_of_lt (merged : Merged level above token pass first second)
    (later : pass < level first) : first = second := by
  induction pass with
  | zero => exact merged
  | succ pass ih =>
    rw [merged_succ_of_ne (by omega)] at merged
    exact ih merged (by omega)

theorem Merged.refl (levels : Levelled level above last) (node : α) :
    Merged level above token pass node node := by
  induction pass generalizing node with
  | zero => rfl
  | succ pass ih =>
    by_cases here : level node = pass + 1
    · obtain ⟨upper, link⟩ := levels.parent node (by omega)
      exact (merged_succ_of_eq here).mpr
        ⟨here, rfl, upper, upper, link, link, ih upper⟩
    · exact (merged_succ_of_ne here).mpr (ih node)

theorem Merged.symm (merged : Merged level above token pass first second) :
    Merged level above token pass second first := by
  induction pass generalizing first second with
  | zero => exact Eq.symm merged
  | succ pass ih =>
    have same := merged.level_eq
    by_cases here : level first = pass + 1
    · obtain ⟨there, tokens, upper, upper', link, link', parents⟩ := (merged_succ_of_eq here).mp merged
      exact (merged_succ_of_eq there).mpr
        ⟨here, tokens.symm, upper', upper, link', link, ih parents⟩
    · exact (merged_succ_of_ne (same ▸ here)).mpr
        (ih ((merged_succ_of_ne here).mp merged))

theorem Merged.trans (merged : Merged level above token pass first second)
    (further : Merged level above token pass second third) :
    Merged level above token pass first third := by
  induction pass generalizing first second third with
  | zero => exact Eq.trans merged further
  | succ pass ih =>
    have same := merged.level_eq
    by_cases here : level first = pass + 1
    · obtain ⟨there, tokens, upper, upper', link, link', parents⟩ := (merged_succ_of_eq here).mp merged
      obtain ⟨last, tokens', upper'', upper''', link'', link''', parents'⟩ :=
        (merged_succ_of_eq there).mp further
      obtain rfl : upper' = upper'' := Option.some.inj (link'.symm.trans link'')
      exact (merged_succ_of_eq here).mpr
        ⟨last, tokens.trans tokens', upper, upper''', link, link''', ih parents parents'⟩
    · exact (merged_succ_of_ne here).mpr (ih ((merged_succ_of_ne here).mp merged)
        ((merged_succ_of_ne (same ▸ here)).mp further))

theorem Merged.succ (levels : Levelled level above last)
    (merged : Merged level above token pass first second) :
    Merged level above token (pass + 1) first second := by
  by_cases here : level first = pass + 1
  · obtain rfl := merged.eq_of_lt (by omega)
    exact Merged.refl levels first
  · exact (merged_succ_of_ne here).mpr merged

/-- Passes over later levels change nothing between earlier nodes. -/
theorem merged_iff_of_le (early : level first ≤ pass) {final : Nat} (later : pass ≤ final) :
    Merged level above token final first second ↔ Merged level above token pass first second := by
  induction final, later using Nat.le_induction with
  | base => rfl
  | succ final later ih => rw [merged_succ_of_ne (by omega), ih]

theorem Merged.parents (levels : Levelled level above last)
    (merged : Merged level above token pass first second) :
    first = second ∨ token first = token second ∧
      ∃ upper upper', above first = some upper ∧ above second = some upper' ∧
        Merged level above token pass upper upper' := by
  induction pass with
  | zero => exact .inl merged
  | succ pass ih =>
    by_cases here : level first = pass + 1
    · obtain ⟨_, tokens, upper, upper', link, link', parents⟩ := (merged_succ_of_eq here).mp merged
      exact .inr ⟨tokens, upper, upper', link, link', parents.succ levels⟩
    · rcases ih ((merged_succ_of_ne here).mp merged) with same |
        ⟨tokens, upper, upper', link, link', parents⟩
      · exact .inl same
      · exact .inr ⟨tokens, upper, upper', link, link', parents.succ levels⟩

theorem Merged.spells (levels : Levelled level above last)
    (merged : Merged level above token pass first second) {tokens : List T}
    (spelled : Spells above token first tokens) : Spells above token second tokens := by
  induction spelled generalizing second with
  | top node top =>
    rcases merged.parents levels with rfl | ⟨_, upper, _, link, _⟩
    · exact .top node top
    · rw [top] at link
      cases link
  | under node upper tokens link rest ih =>
    rcases merged.parents levels with rfl | ⟨same, upper', upper'', link', link'', parents⟩
    · exact .under node upper tokens link rest
    · obtain rfl : upper = upper' := Option.some.inj (link.symm.trans link')
      rw [same]
      exact .under second upper'' tokens link'' (ih parents)

end classes

section representatives

variable [LinearOrder L] {level : α → Nat} {above : α → Option α} {token : α → T} {score : α → L}
  {last pass : Nat}

/-- The best node among those merged with a node. -/
structure Best (level : α → Nat) (above : α → Option α) (token : α → T) (score : α → L) (pass : Nat)
    (node best : α) : Prop where
  merged : Merged level above token pass node best
  greatest : ∀ other, Merged level above token pass node other → score other ≤ score best

/-- The forest as it stands after some passes: its links and the nodes that are left. -/
structure Standing (α : Type) where
  parents : α → Option α
  live : α → Prop

/-- The forest represents what has been merged: nodes hang under the best node their parent is
merged with, and the best nodes are left. -/
structure Represents (level : α → Nat) (above : α → Option α) (token : α → T) (score : α → L)
    (pass : Nat) (standing : Standing α) : Prop where
  tops : ∀ node, above node = none → standing.parents node = none
  links : ∀ node upper, above node = some upper →
    ∃ best, standing.parents node = some best ∧ Best level above token score pass upper best
  left : ∀ node, standing.live node ↔ Best level above token score pass node node

/-- Live siblings of a level that carry one token. -/
structure Sibling (level : α → Nat) (token : α → T) (standing : Standing α) (depth : Nat)
    (node other : α) : Prop where
  level_eq : level node = depth
  level_eq' : level other = depth
  live : standing.live node
  live' : standing.live other
  parent : standing.parents node = standing.parents other
  token_eq : token node = token other

/-- A node that a sibling with its token is better than. -/
def Beaten (level : α → Nat) (token : α → T) (score : α → L) (standing : Standing α) (depth : Nat)
    (node : α) : Prop :=
  ∃ other, Sibling level token standing depth node other ∧ score node < score other

/-- A pass over a level strikes out the beaten nodes and moves their children under the best of
the siblings. -/
structure Pass (level : α → Nat) (token : α → T) (score : α → L) (depth : Nat)
    (standing following : Standing α) : Prop where
  struck : ∀ node, following.live node ↔
    standing.live node ∧ ¬Beaten level token score standing depth node
  tops : ∀ node, standing.parents node = none → following.parents node = none
  stays : ∀ node upper, standing.parents node = some upper →
    ¬Beaten level token score standing depth upper → following.parents node = some upper
  moves : ∀ node upper, standing.parents node = some upper →
    Beaten level token score standing depth upper →
    ∃ best, following.parents node = some best ∧ Sibling level token standing depth upper best ∧
      ∀ other, Sibling level token standing depth upper other → score other ≤ score best

/-- Scores tell nodes below the top apart. -/
def Distinct (level : α → Nat) (score : α → L) : Prop :=
  ∀ first second, 0 < level first → 0 < level second → score first = score second → first = second

theorem Best.unique (distinct : Distinct level score)
    {node first second : α} (best : Best level above token score pass node first)
    (best' : Best level above token score pass node second) : first = second := by
  have equal := le_antisymm (best'.greatest first best.merged) (best.greatest second best'.merged)
  have between := best.merged.symm.trans best'.merged
  rcases Nat.eq_zero_or_pos (level first) with high | low
  · exact (merged_iff_of_le high.le (Nat.zero_le pass)).mp between
  · exact distinct first second low (between.level_eq ▸ low) equal

theorem Best.congr {first second best : α} (merged : Merged level above token pass first second)
    (chosen : Best level above token score pass first best) :
    Best level above token score pass second best :=
  ⟨merged.symm.trans chosen.merged, fun other same => chosen.greatest other (merged.trans same)⟩

theorem Best.self {node best : α} (chosen : Best level above token score pass node best) :
    Best level above token score pass best best := chosen.congr chosen.merged

/-- A node that no pass has come to is the best of its class. -/
theorem Best.untouched (levels : Levelled level above last) {node : α} (later : pass < level node) :
    Best level above token score pass node node :=
  ⟨Merged.refl levels node, fun other same => by rw [same.eq_of_lt later]⟩

theorem exists_best (levels : Levelled level above last) (few : {node | 0 < level node}.Finite)
    (node : α) : ∃ best, Best level above token score pass node best := by
  have finite : {other | Merged level above token pass node other}.Finite := by
    apply (few.insert node).subset
    intro other same
    rcases Nat.eq_zero_or_pos (level node) with high | low
    · exact .inl ((merged_iff_of_le high.le (Nat.zero_le pass)).mp same).symm
    · exact .inr (Nat.lt_of_lt_of_eq low same.level_eq)
  obtain ⟨best, member, greatest⟩ :=
    Set.exists_max_image _ score finite ⟨node, Merged.refl levels node⟩
  exact ⟨best, member, greatest⟩

theorem Represents.start (levels : Levelled level above last) {standing : Standing α}
    (links : standing.parents = above) (all : ∀ node, standing.live node) :
    Represents level above token score 0 standing where
  tops := fun node top => (congrFun links node).trans top
  links := fun node upper link => ⟨upper, (congrFun links node).trans link, Merged.refl levels upper,
    fun other same => by rw [show upper = other from same]⟩
  left := fun node => ⟨fun _ => ⟨Merged.refl levels node,
    fun other same => by rw [show node = other from same]⟩, fun _ => all node⟩

/-- Nodes hang under one parent when their original parents are merged. -/
theorem Represents.parents_eq_iff (distinct : Distinct level score) {standing : Standing α}
    (represents : Represents level above token score pass standing) {first second upper upper' : α}
    (link : above first = some upper) (link' : above second = some upper') :
    standing.parents first = standing.parents second ↔ Merged level above token pass upper upper' := by
  obtain ⟨best, now, chosen⟩ := represents.links first upper link
  obtain ⟨best', now', chosen'⟩ := represents.links second upper' link'
  rw [now, now', Option.some.injEq]
  constructor
  · rintro rfl
    exact chosen.merged.trans chosen'.merged.symm
  · intro merged
    exact (chosen.congr merged).unique distinct chosen'

/-- At the level of a pass, the siblings of a node are the nodes it is merged with. -/
theorem Represents.sibling_iff (levels : Levelled level above last)
    (distinct : Distinct level score) {standing : Standing α}
    (represents : Represents level above token score pass standing) {node other : α}
    (here : level node = pass + 1) :
    Sibling level token standing (pass + 1) node other ↔
      Merged level above token (pass + 1) node other := by
  obtain ⟨upper, link⟩ := levels.parent node (by omega)
  rw [merged_succ_of_eq here]
  constructor
  · intro sibling
    obtain ⟨upper', link'⟩ := levels.parent other (by have := sibling.level_eq'; omega)
    exact ⟨sibling.level_eq', sibling.token_eq, upper, upper', link, link',
      (represents.parents_eq_iff distinct link link').mp sibling.parent⟩
  · rintro ⟨there, tokens, upper, upper', link, link', merged⟩
    exact ⟨here, there, (represents.left node).mpr (Best.untouched levels (by omega)),
      (represents.left other).mpr (Best.untouched levels (by omega)),
      (represents.parents_eq_iff distinct link link').mpr merged, tokens⟩

/-- The beaten nodes of a pass are those of its level that are not the best of what it merges. -/
theorem Represents.beaten_iff (levels : Levelled level above last)
    (distinct : Distinct level score) {standing : Standing α}
    (represents : Represents level above token score pass standing) (node : α) :
    Beaten level token score standing (pass + 1) node ↔
      level node = pass + 1 ∧ ¬Best level above token score (pass + 1) node node := by
  constructor
  · rintro ⟨other, sibling, better⟩
    have merged := (represents.sibling_iff levels distinct sibling.level_eq).mp sibling
    exact ⟨sibling.level_eq, fun best => absurd (best.greatest other merged) (not_le.mpr better)⟩
  · rintro ⟨here, worse⟩
    by_contra unbeaten
    refine worse ⟨Merged.refl levels node, fun other merged => not_lt.mp fun better => ?_⟩
    exact unbeaten ⟨other, (represents.sibling_iff levels distinct here).mpr merged, better⟩

/-- A pass over the next level leaves a forest that represents what it has merged. -/
theorem Represents.step (levels : Levelled level above last) (distinct : Distinct level score)
    {standing following : Standing α}
    (represents : Represents level above token score pass standing)
    (round : Pass level token score (pass + 1) standing following) :
    Represents level above token score (pass + 1) following where
  tops := fun node top => round.tops node (represents.tops node top)
  links := by
    intro node upper link
    obtain ⟨best, now, chosen⟩ := represents.links node upper link
    by_cases here : level upper = pass + 1
    · obtain rfl := chosen.merged.eq_of_lt (by omega)
      by_cases beaten : Beaten level token score standing (pass + 1) upper
      · obtain ⟨best, moved, sibling, greatest⟩ := round.moves node upper now beaten
        refine ⟨best, moved, (represents.sibling_iff levels distinct here).mp sibling, ?_⟩
        intro other merged
        exact greatest other ((represents.sibling_iff levels distinct here).mpr merged)
      · refine ⟨upper, round.stays node upper now beaten, ?_⟩
        by_contra worse
        exact beaten ((represents.beaten_iff levels distinct upper).mpr ⟨here, worse⟩)
    · have there : level best ≠ pass + 1 := chosen.merged.level_eq ▸ here
      refine ⟨best, round.stays node best now fun beaten => ?_, ?_⟩
      · exact there ((represents.beaten_iff levels distinct best).mp beaten).1
      · exact ⟨(merged_succ_of_ne here).mpr chosen.merged,
          fun other merged => chosen.greatest other ((merged_succ_of_ne here).mp merged)⟩
  left := by
    intro node
    rw [round.struck, represents.beaten_iff levels distinct, represents.left]
    by_cases here : level node = pass + 1
    · have untouched : Best level above token score pass node node :=
        Best.untouched levels (by omega)
      simp [here, untouched]
    · have unchanged : Best level above token score (pass + 1) node node ↔
          Best level above token score pass node node :=
        ⟨fun best => ⟨Merged.refl levels node,
          fun other merged => best.greatest other ((merged_succ_of_ne here).mpr merged)⟩,
        fun best => ⟨Merged.refl levels node,
          fun other merged => best.greatest other ((merged_succ_of_ne here).mp merged)⟩⟩
      simp [here, unchanged]

/-- A link of the forest as it stands leads to a live node no worse than the original parent. -/
theorem Represents.parent_live {standing : Standing α}
    (represents : Represents level above token score pass standing) {node upper : α}
    (link : standing.parents node = some upper) :
    standing.live upper ∧ ∃ original, above node = some original ∧ score original ≤ score upper := by
  cases original : above node with
  | none =>
    rw [represents.tops node original] at link
    cases link
  | some former =>
    obtain ⟨best, now, chosen⟩ := represents.links node former original
    obtain rfl : best = upper := Option.some.inj (now.symm.trans link)
    exact ⟨(represents.left best).mpr chosen.self, former, rfl,
      chosen.greatest former (chosen.merged.trans chosen.merged.symm)⟩

/-- After the last pass two live nodes with one token under one parent are of the last level or
below it and had different parents. -/
theorem Represents.separate (levels : Levelled level above last) (distinct : Distinct level score)
    {standing : Standing α} (represents : Represents level above token score last standing)
    {first second upper upper' : α} (live : standing.live first) (live' : standing.live second)
    (link : above first = some upper) (link' : above second = some upper')
    (parents : standing.parents first = standing.parents second)
    (tokens : token first = token second) :
    first = second ∨ level upper = last ∧ upper ≠ upper' := by
  have merged := (represents.parents_eq_iff distinct link link').mp parents
  have best := (represents.left first).mp live
  have best' := (represents.left second).mp live'
  have depth := levels.below first upper link
  have depth' := levels.below second upper' link'
  have same := merged.level_eq
  have positive := levels.some_level
  have together (siblings : Merged level above token last first second) : first = second :=
    Best.unique distinct (best.congr siblings) best'
  by_cases deep : level upper = last
  · by_cases one : upper = upper'
    · subst one
      refine .inl (together ?_)
      obtain ⟨pass, rfl⟩ := Nat.exists_eq_add_one.mpr positive
      exact (merged_succ_of_eq (by omega)).mpr
        ⟨by omega, tokens, upper, upper, link, link', Merged.refl levels upper⟩
    · exact .inr ⟨deep, one⟩
  · rcases Nat.lt_or_ge (level upper) last with shallow | beyond
    · have early := (merged_iff_of_le (Nat.le_refl _) shallow.le).mp merged
      refine .inl (together ?_)
      have here : level first = level upper + 1 := by omega
      have siblings : Merged level above token (level upper + 1) first second :=
        (merged_succ_of_eq here).mpr ⟨by omega, tokens, upper, upper', link, link', early⟩
      exact (merged_iff_of_le here.le shallow).mpr siblings
    · cases outer : above upper with
      | none =>
        have := levels.top upper outer
        omega
      | some higher =>
        have := levels.below upper higher outer
        omega

theorem Represents.spells_of_merged (levels : Levelled level above last) {standing : Standing α}
    (represents : Represents level above token score pass standing) {node other : α} {tokens : List T}
    (spelled : Spells above token node tokens) (merged : Merged level above token pass node other) :
    Spells standing.parents token other tokens := by
  induction spelled generalizing other with
  | top node top =>
    rcases merged.parents levels with rfl | ⟨_, upper, _, link, _⟩
    · exact .top node (represents.tops node top)
    · rw [top] at link
      cases link
  | under node upper tokens link rest ih =>
    have parents : token node = token other ∧
        ∃ upper', above other = some upper' ∧ Merged level above token pass upper upper' := by
      rcases merged.parents levels with rfl | ⟨same, former, upper', link', link'', together⟩
      · exact ⟨rfl, upper, link, Merged.refl levels upper⟩
      · obtain rfl : upper = former := Option.some.inj (link.symm.trans link')
        exact ⟨same, upper', link'', together⟩
    obtain ⟨same, upper', link', together⟩ := parents
    obtain ⟨best, now, chosen⟩ := represents.links other upper' link'
    rw [same]
    exact .under other best tokens now (ih (together.trans chosen.merged))

/-- The forest as it stands spells what the original forest does, node by node. -/
theorem Represents.spells_iff (levels : Levelled level above last) {standing : Standing α}
    (represents : Represents level above token score pass standing) {node : α} {tokens : List T} :
    Spells standing.parents token node tokens ↔ Spells above token node tokens := by
  constructor
  · intro spelled
    induction spelled with
    | top node top =>
      cases link : above node with
      | none => exact .top node link
      | some upper =>
        obtain ⟨best, now, _⟩ := represents.links node upper link
        rw [now] at top
        cases top
    | under node best tokens now _ ih =>
      cases link : above node with
      | none =>
        rw [represents.tops node link] at now
        cases now
      | some upper =>
        obtain ⟨best', now', chosen⟩ := represents.links node upper link
        obtain rfl : best = best' := Option.some.inj (now.symm.trans now')
        exact .under node upper tokens link (chosen.merged.symm.spells levels ih)
  · exact fun spelled => represents.spells_of_merged levels spelled (Merged.refl levels node)

end representatives

end SpecBlock.Merging
