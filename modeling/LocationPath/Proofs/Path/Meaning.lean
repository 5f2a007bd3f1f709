import LocationPath.Path
import LocationPath.Proofs.Path.Contextual

/-! # What steps select

Steps lead through a tree from node to node: an ordinary step to those children that pass its test,
two dots to the parent, and one dot nowhere else. Predicates look at the node that a step leads to
and not at its place among the others. A path is followed step by step.

Main definitions: `NodeTree`, `NodeTree.leads`, `NodeTree.selects` and `NodeTree.ancestor`. Main
results: `NodeTree.selects_append`, `NodeTree.selects_backs` and
`NodeTree.ancestor_of_selects`. -/

namespace LocationPath

universe u

/-- The nodes of a tree, with any node tests and any predicates. -/
structure NodeTree (ν : Type u) where
  /-- The parent of a node, if there is one. -/
  parent : ν → Option ν
  /-- A node passes the node test of a step with a text. -/
  passes : Text → ν → Prop
  /-- A predicate holds for a node. -/
  holds : Text → ν → Prop

namespace NodeTree

variable {ν : Type u} (tree : NodeTree ν)

/-- A step leads from one node to another. -/
def leads (step : Step) (origin target : ν) : Prop :=
  (if step.isSelf then target = origin
    else if step.isParent then tree.parent origin = some target
    else tree.parent target = some origin ∧ tree.passes step.text target) ∧
  ∀ predicate ∈ step.predicates, tree.holds predicate target

/-- Some steps, one after another, select a node from another one. -/
def selects : List Step → ν → ν → Prop
  | [], origin, target => target = origin
  | step :: rest, origin, target => ∃ middle, tree.leads step origin middle ∧
    selects rest middle target

/-- The node that is a number of levels up. -/
def ancestor : Nat → ν → Option ν
  | 0, node => some node
  | levels + 1, node => (tree.parent node).bind (ancestor levels)

/-- No node is above itself. -/
def Acyclic : Prop := ∀ node levels, tree.ancestor (levels + 1) node ≠ some node

/-! ## Levels -/

/-- Levels add up. -/
theorem ancestor_add (first second : Nat) (node : ν) :
    tree.ancestor (first + second) node = (tree.ancestor first node).bind (tree.ancestor second) := by
  induction first generalizing node with
  | zero => rw [Nat.zero_add]; rfl
  | succ first ih =>
    rw [Nat.add_right_comm, ancestor, ancestor, Option.bind_assoc]
    exact Option.bind_congr fun next _ => ih next

/-- One level is the parent. -/
theorem ancestor_one (node : ν) : tree.ancestor 1 node = tree.parent node := by
  rw [ancestor]
  cases tree.parent node <;> rfl

/-- What is above an ancestor is above the node. -/
theorem ancestor_trans {first second : Nat} {node middle : ν}
    (h : tree.ancestor first node = some middle) :
    tree.ancestor (first + second) node = tree.ancestor second middle := by
  rw [ancestor_add, h, Option.bind_some]

/-- Without cycles a node is above another one by one number of levels only. -/
theorem Acyclic.eq_of_ancestor {tree : NodeTree ν} (acyclic : tree.Acyclic) {first second : Nat}
    {node above : ν} (h : tree.ancestor first node = some above)
    (h' : tree.ancestor second node = some above) : first = second := by
  have not_lt : ∀ {lower upper : Nat}, tree.ancestor lower node = some above →
      tree.ancestor upper node = some above → ¬lower < upper := by
    intro lower upper low up lt
    obtain ⟨levels, rfl⟩ := Nat.exists_eq_add_of_lt lt
    rw [Nat.add_assoc, tree.ancestor_trans low] at up
    exact acyclic above levels up
  exact Nat.le_antisymm (Nat.le_of_not_lt (not_lt h' h)) (Nat.le_of_not_lt (not_lt h h'))

/-! ## Steps -/

/-- An ordinary step leads to a child. -/
theorem leads_iff {step : Step} (ordinary : step.isDots = false) {origin target : ν} :
    tree.leads step origin target ↔ (tree.parent target = some origin ∧
      tree.passes step.text target) ∧ ∀ predicate ∈ step.predicates, tree.holds predicate target := by
  rw [Step.isDots, Bool.or_eq_false_iff] at ordinary
  rw [leads, ordinary.1, ordinary.2, if_neg (by simp), if_neg (by simp)]

/-- A dot stays at the node if its predicates hold. -/
theorem leads_stay {predicates : List Text} {origin target : ν} :
    tree.leads (.stay predicates) origin target ↔
      target = origin ∧ ∀ predicate ∈ predicates, tree.holds predicate target := Iff.rfl

/-- Two dots lead to the parent if their predicates hold for it. -/
theorem leads_back {predicates : List Text} {origin target : ν} :
    tree.leads (.back predicates) origin target ↔
      tree.parent origin = some target ∧ ∀ predicate ∈ predicates, tree.holds predicate target :=
  Iff.rfl

/-- A step that a context step covers leads wherever the context step leads. -/
theorem leads_of_isCoveredBy {step context : Step} (covered : step.isCoveredBy context = true)
    {origin target : ν} (h : tree.leads context origin target) : tree.leads step origin target := by
  obtain ⟨text_eq, subset⟩ := Step.of_isCoveredBy covered
  rw [leads, Step.isSelf, Step.isParent] at h ⊢
  rw [text_eq]
  exact ⟨h.1, fun predicate mem => h.2 predicate (subset mem)⟩

/-- A step that narrows a context step leads where the context step leads and the added predicates
hold. -/
theorem leads_iff_of_narrows {step context : Step} (narrows : step.narrows context = .ok true)
    {origin target : ν} : tree.leads step origin target ↔ tree.leads context origin target ∧
      ∀ predicate ∈ step.added context, tree.holds predicate target := by
  obtain ⟨text_eq, -, subset⟩ := Step.narrows_eq_ok_true_iff.1 narrows
  have predicates : (∀ predicate ∈ step.predicates, tree.holds predicate target) ↔
      (∀ predicate ∈ context.predicates, tree.holds predicate target) ∧
        ∀ predicate ∈ step.added context, tree.holds predicate target := by
    constructor
    · intro all
      exact ⟨fun predicate mem => all predicate (subset mem),
        fun predicate mem => all predicate (List.mem_filter.1 mem).1⟩
    · rintro ⟨shared, added⟩ predicate mem
      by_cases inside : predicate ∈ context.predicates
      · exact shared predicate inside
      · exact added predicate (List.mem_filter.2 ⟨mem, by simpa using inside⟩)
  rw [leads, leads, Step.isSelf, Step.isParent, Step.isSelf, Step.isParent, text_eq, predicates,
    and_assoc]

/-! ## Steps one after another -/

/-- Steps behind others go on from where the others lead. -/
theorem selects_append {first second : List Step} {origin target : ν} :
    tree.selects (first ++ second) origin target ↔
      ∃ middle, tree.selects first origin middle ∧ tree.selects second middle target := by
  induction first generalizing origin with
  | nil => simp [selects]
  | cons step first ih =>
    simp only [List.cons_append, selects, ih]
    constructor
    · rintro ⟨next, leads, middle, front, behind⟩
      exact ⟨middle, ⟨next, leads, front⟩, behind⟩
    · rintro ⟨middle, ⟨next, leads, front⟩, behind⟩
      exact ⟨next, leads, middle, front, behind⟩

/-- Steps back lead as many levels up. -/
theorem selects_backs {count : Nat} {origin target : ν} :
    tree.selects (List.replicate count (.back [])) origin target ↔
      tree.ancestor count origin = some target := by
  induction count generalizing origin with
  | zero =>
    rw [List.replicate_zero, selects, ancestor, Option.some.injEq]
    exact eq_comm
  | succ count ih =>
    rw [List.replicate_succ, selects, ancestor, Option.bind_eq_some_iff]
    refine exists_congr fun middle => ?_
    rw [ih, leads_back]
    simp

/-- **Ordinary steps lead one level down each.** -/
theorem ancestor_of_selects {steps : List Step} (ordinary : ∀ step ∈ steps, step.isDots = false)
    {origin target : ν} (h : tree.selects steps origin target) :
    tree.ancestor steps.length target = some origin := by
  induction steps generalizing origin with
  | nil =>
    obtain rfl : target = origin := h
    rfl
  | cons step steps ih =>
    obtain ⟨middle, leads, rest⟩ := h
    have up := ih (fun other mem => ordinary other (List.mem_cons_of_mem step mem)) rest
    have parent := ((tree.leads_iff (ordinary step (by simp))).1 leads).1.1
    rw [List.length_cons, tree.ancestor_trans up, ancestor_one, parent]

/-- Where ordinary steps are divided, they lead through the node that is as many levels up as there
are steps behind. -/
theorem selects_take_drop_iff {steps : List Step} (count : Nat)
    (ordinary : ∀ step ∈ steps, step.isDots = false) {origin middle target : ν} :
    tree.selects (steps.take count) origin middle ∧ tree.selects (steps.drop count) middle target ↔
      tree.selects steps origin target ∧
        tree.ancestor (steps.length - count) target = some middle := by
  have up : ∀ {other}, tree.selects (steps.drop count) other target →
      tree.ancestor (steps.length - count) target = some other := by
    intro other rest
    have up := tree.ancestor_of_selects
      (fun step mem => ordinary step (List.mem_of_mem_drop mem)) rest
    rwa [List.length_drop] at up
  have divided : tree.selects (steps.take count ++ steps.drop count) origin target ↔ _ :=
    tree.selects_append
  rw [List.take_append_drop] at divided
  rw [divided]
  constructor
  · rintro ⟨front, behind⟩
    exact ⟨⟨middle, front, behind⟩, up behind⟩
  · rintro ⟨⟨other, front, behind⟩, middle_eq⟩
    obtain rfl := Option.some.inj ((up behind).symm.trans middle_eq)
    exact ⟨front, behind⟩

/-- Without cycles a node that ordinary steps select is below another one only if it is as many
levels below it as the steps lead further down. -/
theorem Acyclic.ancestor_iff {tree : NodeTree ν} (acyclic : tree.Acyclic) {steps : List Step}
    {count : Nat} (le : count ≤ steps.length) (ordinary : ∀ step ∈ steps, step.isDots = false)
    {origin middle target : ν} (depth : tree.ancestor count middle = some origin)
    (h : tree.selects steps origin target) :
    (∃ levels, tree.ancestor levels target = some middle) ↔
      tree.ancestor (steps.length - count) target = some middle := by
  refine ⟨?_, fun up => ⟨_, up⟩⟩
  rintro ⟨levels, up⟩
  have through := (tree.ancestor_trans up).trans depth
  have length := acyclic.eq_of_ancestor (tree.ancestor_of_selects ordinary h) through
  rwa [show steps.length - count = levels by omega]

/-- A dot in place of no steps at all selects the same. -/
theorem selects_orStay {steps : List Step} {origin target : ν} :
    tree.selects (orStay steps) origin target ↔ tree.selects steps origin target := by
  cases steps with
  | nil =>
    rw [orStay, selects, selects]
    simp [leads_stay, selects]
  | cons step steps => rfl

end NodeTree

end LocationPath
