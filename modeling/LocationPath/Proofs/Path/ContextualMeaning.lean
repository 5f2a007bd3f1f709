import LocationPath.Proofs.Path.Meaning

/-! # What a path in a context selects

Seen from a node that the context selects, a contextualized path selects what the path selects from
the root, as far as it is reached through the last node that both have in common. What the path
shares with the context need not be repeated, since the context has checked it already.

Main definitions: `Node.isPlainAbsolute`. Main results: `NodeTree.selects_contextualSteps` and
`Path.contextualize_selects`. -/

namespace LocationPath

universe u

namespace Path

/-! ## What is shared -/

/-- A covered step is shared. -/
theorem sharedLength_of_isCoveredBy {covering step : Step} {context path : List Step}
    (covered : step.isCoveredBy covering = true) :
    sharedLength (covering :: context) (step :: path) = sharedLength context path + 1 := by
  simp only [sharedLength, coveredLength, if_pos covered, List.getElem?_cons_succ]
  split
  · split <;> rfl
  · rfl

/-- A first step that is not covered is shared only if it adds predicates. -/
theorem sharedLength_of_not_isCoveredBy {last step : Step} {context path : List Step}
    (uncovered : step.isCoveredBy last = false) :
    sharedLength (last :: context) (step :: path) =
      if step.narrows last = .ok true then 1 else 0 := by
  simp [sharedLength, coveredLength, uncovered]

/-- In no context the steps are those of the path. -/
theorem contextualSteps_nil_left (path : List Step) : contextualSteps [] path = orStay path := by
  rw [contextualSteps, dropCovered]
  · rfl
  · simp

/-- A path that has ended leads back over all that is left of the context. -/
theorem contextualSteps_nil_right (context : List Step) :
    contextualSteps context [] = orStay (List.replicate context.length (.back [])) := by
  rw [contextualSteps, dropCovered]
  · simp
  · simp

/-- A covered step is left out. -/
theorem contextualSteps_of_isCoveredBy {covering step : Step} {context path : List Step}
    (covered : step.isCoveredBy covering = true) :
    contextualSteps (covering :: context) (step :: path) = contextualSteps context path := by
  rw [contextualSteps, dropCovered, if_pos covered, ← contextualSteps]

/-- A step that is not covered but narrower is left out except for its added predicates, which are
put on a dot or on the last step back. -/
theorem contextualSteps_of_narrows {last step : Step} {context path : List Step}
    (uncovered : step.isCoveredBy last = false) (narrows : step.narrows last = .ok true) :
    contextualSteps (last :: context) (step :: path) =
      match context with
      | [] => .stay (step.added last) :: path
      | _ :: context =>
        List.replicate context.length (.back []) ++ .back (step.added last) :: path := by
  have dropped : dropCovered (last :: context) (step :: path) = (last :: context, step :: path) := by
    rw [dropCovered, if_neg (by simp [uncovered])]
  rw [contextualSteps, dropped]
  exact if_pos narrows

/-- Where the path leaves the context, all that is left of the context is gone back over. -/
theorem contextualSteps_of_not_narrows {last step : Step} {context path : List Step}
    (uncovered : step.isCoveredBy last = false) (narrows : step.narrows last ≠ .ok true) :
    contextualSteps (last :: context) (step :: path) =
      List.replicate (context.length + 1) (.back []) ++ step :: path := by
  have dropped : dropCovered (last :: context) (step :: path) = (last :: context, step :: path) := by
    rw [dropCovered, if_neg (by simp [uncovered])]
  rw [contextualSteps, dropped]
  exact if_neg narrows

/-- **Induction over the steps that a context covers.** What is said of a path in a context follows
from the places where the two part: one of them ends, the next step adds predicates to that of the
context, or it is another step. -/
@[elab_as_elim]
theorem contextual_induction {motive : (context path : List Step) → Prop}
    (no_context : ∀ path, motive [] path)
    (no_path : ∀ last context, motive (last :: context) [])
    (covered : ∀ covering context step path, step.isCoveredBy covering = true →
      motive context path → motive (covering :: context) (step :: path))
    (narrows : ∀ last context step path, step.isCoveredBy last = false →
      step.narrows last = .ok true → motive (last :: context) (step :: path))
    (leaves : ∀ last context step path, step.isCoveredBy last = false →
      step.narrows last ≠ .ok true → motive (last :: context) (step :: path))
    (context path : List Step) : motive context path := by
  induction context generalizing path with
  | nil => exact no_context path
  | cons last context ih =>
    cases path with
    | nil => exact no_path last context
    | cons step path =>
      cases is_covered : step.isCoveredBy last with
      | true => exact covered last context step path is_covered (ih path)
      | false =>
        by_cases answer : step.narrows last = .ok true
        · exact narrows last context step path is_covered answer
        · exact leaves last context step path is_covered answer

/-- What is shared is a part of the context and of the path. -/
theorem sharedLength_le (context path : List Step) :
    sharedLength context path ≤ context.length ∧ sharedLength context path ≤ path.length := by
  induction context, path using contextual_induction with
  | no_context | no_path => simp [sharedLength, coveredLength]
  | covered covering context step path covered ih =>
    rw [sharedLength_of_isCoveredBy covered, List.length_cons, List.length_cons]
    omega
  | narrows last context step path uncovered | leaves last context step path uncovered =>
    rw [sharedLength_of_not_isCoveredBy uncovered, List.length_cons, List.length_cons]
    split <;> omega

end Path

namespace NodeTree

variable {ν : Type u} (tree : NodeTree ν)

open LocationPath.Path

/-- In place of a narrower step the added predicates are checked, at the node below which all that is
left of the context stands. -/
theorem selects_contextualSteps_of_narrows {last step : Step} {context path : List Step}
    (uncovered : step.isCoveredBy last = false) (narrows : step.narrows last = .ok true)
    {node child : ν} (up : tree.ancestor context.length node = some child) (target : ν) :
    tree.selects (contextualSteps (last :: context) (step :: path)) node target ↔
      (∀ predicate ∈ step.added last, tree.holds predicate child) ∧
        tree.selects path child target := by
  rw [contextualSteps_of_narrows uncovered narrows]
  cases context with
  | nil =>
    obtain rfl : node = child := Option.some.inj up
    dsimp only
    rw [selects]
    simp only [leads_stay]
    constructor
    · rintro ⟨middle, ⟨rfl, holds⟩, behind⟩
      exact ⟨holds, behind⟩
    · rintro ⟨holds, behind⟩
      exact ⟨_, ⟨rfl, holds⟩, behind⟩
  | cons next context =>
    dsimp only
    rw [selects_append]
    simp only [selects_backs, selects, leads_back]
    -- The last of the steps back stands for the step that the predicates are added to.
    have split := tree.ancestor_add context.length 1 node
    rw [List.length_cons] at up
    rw [up] at split
    obtain ⟨before, before_eq, parent⟩ := Option.bind_eq_some_iff.1 split.symm
    rw [ancestor_one] at parent
    constructor
    · rintro ⟨middle, middle_eq, last, ⟨parent', holds⟩, behind⟩
      obtain rfl := Option.some.inj (before_eq.symm.trans middle_eq)
      obtain rfl := Option.some.inj (parent.symm.trans parent')
      exact ⟨holds, behind⟩
    · rintro ⟨holds, behind⟩
      exact ⟨before, before_eq, child, ⟨parent, holds⟩, behind⟩

/-- Where the path leaves the context, the rest of it is taken from where the context was left. -/
theorem selects_contextualSteps_of_not_narrows {last step : Step} {context path : List Step}
    (uncovered : step.isCoveredBy last = false) (narrows : step.narrows last ≠ .ok true)
    {node common : ν} (up : tree.ancestor (context.length + 1) node = some common) (target : ν) :
    tree.selects (contextualSteps (last :: context) (step :: path)) node target ↔
      tree.selects (step :: path) common target := by
  rw [contextualSteps_of_not_narrows uncovered narrows, selects_append]
  simp only [selects_backs, up, Option.some.injEq]
  constructor
  · rintro ⟨middle, rfl, behind⟩
    exact behind
  · intro behind
    exact ⟨common, rfl, behind⟩

/-- **The contextual steps select what the path selects** from the last node that it has in common
with the context, provided that what they share leads to this node. -/
theorem selects_contextualSteps {context path : List Step} {root node : ν}
    (ordinary : ∀ step ∈ context, step.isDots = false)
    (ordinary_path : ∀ step ∈ path, step.isDots = false)
    (selected : tree.selects context root node) :
    ∃ common, tree.ancestor (context.length - sharedLength context path) node = some common ∧
      ∀ target, tree.selects (contextualSteps context path) node target ↔
        tree.selects (path.take (sharedLength context path)) root common ∧
          tree.selects (path.drop (sharedLength context path)) common target := by
  induction context, path using contextual_induction generalizing root with
  | no_context path =>
    obtain rfl : node = root := selected
    refine ⟨node, rfl, fun target => ?_⟩
    rw [contextualSteps_nil_left, selects_orStay]
    simp [sharedLength, coveredLength, selects]
  | no_path last context =>
    have up := tree.ancestor_of_selects ordinary selected
    refine ⟨root, up, fun target => ?_⟩
    rw [contextualSteps_nil_right, selects_orStay, selects_backs, up]
    simp [selects, eq_comm]
  | covered covering context step path covered ih =>
    obtain ⟨child, leads, rest⟩ := selected
    have ordinary_context := fun other mem => ordinary other (List.mem_cons_of_mem covering mem)
    have le := sharedLength_le context path
    obtain ⟨common, common_eq, meaning⟩ := ih ordinary_context
      (fun other mem => ordinary_path other (List.mem_cons_of_mem step mem)) rest
    rw [sharedLength_of_isCoveredBy covered]
    refine ⟨common, by simpa using common_eq, fun target => ?_⟩
    rw [contextualSteps_of_isCoveredBy covered, meaning, List.take_succ_cons, List.drop_succ_cons]
    refine and_congr_left fun _ => ?_
    constructor
    · exact fun front => ⟨child, tree.leads_of_isCoveredBy covered leads, front⟩
    · -- The node below the root is the same, since both are the same number of levels up.
      rintro ⟨other, -, front⟩
      have ordinary_front : ∀ step ∈ path.take (sharedLength context path),
          step.isDots = false := fun other mem =>
        ordinary_path other (List.mem_cons_of_mem step (List.mem_of_mem_take mem))
      have other_up := tree.ancestor_of_selects ordinary_front front
      have child_up := tree.ancestor_of_selects ordinary_context rest
      rw [List.length_take, Nat.min_eq_left le.2] at other_up
      rw [← Nat.sub_add_cancel le.1, tree.ancestor_trans common_eq, other_up] at child_up
      obtain rfl := Option.some.inj child_up
      exact front
  | narrows last context step path uncovered narrows =>
    obtain ⟨child, leads, rest⟩ := selected
    have ordinary_context := fun other mem => ordinary other (List.mem_cons_of_mem last mem)
    have child_up := tree.ancestor_of_selects ordinary_context rest
    rw [sharedLength_of_not_isCoveredBy uncovered, if_pos narrows]
    refine ⟨child, by simpa using child_up, fun target => ?_⟩
    have first : tree.selects [step] root child ↔
        ∀ predicate ∈ step.added last, tree.holds predicate child := by
      have one : tree.selects [step] root child ↔ tree.leads step root child := by
        simp [selects]
      rw [one, tree.leads_iff_of_narrows narrows, and_iff_right leads]
    rw [tree.selects_contextualSteps_of_narrows uncovered narrows child_up,
      List.take_succ_cons, List.take_zero, List.drop_succ_cons, List.drop_zero, first]
  | leaves last context step path uncovered narrows =>
    have up := tree.ancestor_of_selects ordinary selected
    rw [List.length_cons] at up
    rw [sharedLength_of_not_isCoveredBy uncovered, if_neg narrows]
    refine ⟨root, up, fun target => ?_⟩
    rw [tree.selects_contextualSteps_of_not_narrows uncovered narrows up, List.take_zero,
      List.drop_zero]
    exact (and_iff_right rfl).symm

end NodeTree

/-! ## Plain paths -/

namespace Node

/-- Whether a node is a step with a node test, either without an axis or on the attribute axis. -/
def isPlainStep : Node → Bool
  | .step _ .unwritten _ _ | .step _ .attribute _ _ => true
  | _ => false

/-- Whether a tree is plain steps with single slashes between them. -/
def isPlainPath : Node → Bool
  | .binary _ left op right => op == ['/'] && left.isPlainPath && right.isPlainPath
  | node => node.isPlainStep

/-- Whether a tree is the root alone or a plain path from the root. -/
def isPlainAbsolute : Node → Bool
  | .root _ op => op == ['/']
  | .absolute _ op relative => op == ['/'] && relative.isPlainPath
  | _ => false

/-- The outermost steps of a plain path are plain. -/
theorem isPlainStep_of_isPlainPath {tree : Node} (h : tree.isPlainPath = true) :
    ∀ node ∈ tree.outermost, node.isPlainStep = true := by
  fun_induction isPlainPath tree with
  | case1 span left op right ihl ihr =>
    rw [Bool.and_eq_true, Bool.and_eq_true] at h
    rw [outermost]
    exact List.forall_mem_append.2 ⟨ihl h.1.2, ihr h.2⟩
  | case2 tree no_binary =>
    cases tree with
    | step span axis test predicates =>
      intro node mem
      rwa [List.mem_singleton.1 mem]
    | _ => simp [isPlainStep] at h

/-- The outermost steps of a plain path from the root are plain. -/
theorem isPlainStep_of_isPlainAbsolute {tree : Node} (h : tree.isPlainAbsolute = true) :
    ∀ node ∈ tree.outermost, node.isPlainStep = true := by
  cases tree with
  | root span op => simp [outermost]
  | absolute span op relative =>
    rw [isPlainAbsolute, Bool.and_eq_true] at h
    rw [outermost]
    exact isPlainStep_of_isPlainPath h.2
  | _ => simp [isPlainAbsolute] at h

end Node

namespace Path

/-- The steps of a plain path are ordinary and can be read back. -/
theorem exists_steps_of_isPlainAbsolute {text : Text} {tree : Node}
    (parsed : Node.parse text = .ok tree) (plain : tree.isPlainAbsolute = true)
    (no_ogham : oghamSpace ∉ text) : ∃ found, steps text = .ok found ∧
      (∀ step ∈ found, step.isDots = false) ∧ ∀ step ∈ found, step.Readable := by
  obtain ⟨info, taken⟩ := PathInfo.exists_parse parsed no_ogham
  obtain ⟨derivation, tokenized, rfl⟩ := Node.parse_eq_ok_iff_exists.1 parsed
  refine ⟨info.locationSteps, by rw [steps, taken]; rfl, fun step mem => ?_,
    PathInfo.readable taken no_ogham⟩
  obtain ⟨front, conditions, outermost, starts, stops, reads⟩ :=
    PathInfo.exists_readsAs tokenized taken no_ogham step mem
  have plain_step := Node.isPlainStep_of_isPlainAbsolute plain _ outermost
  rw [reads.isDots, Front.isDots_move]
  cases front with
  | self | parent => simp [Front.step, Derivation.value, Node.isPlainStep] at plain_step
  | _ => rfl

variable {ν : Type u} (tree : NodeTree ν)

/-- **A path in a context selects the right nodes.** Take a node that the context selects from the
root, and the node above it where the path leaves the context. From the first node the contextual
path selects exactly those nodes that the path selects from the root and that have the second node
as many levels above them as the path has steps left; these are the nodes that the rest of the path
selects from the second node, if the shared steps lead there. In a tree without cycles they are the
nodes that the path selects below the second node or at it. -/
theorem contextualize_selects {context path : Text} {contextTree pathTree : Node}
    (context_parsed : Node.parse context = .ok contextTree)
    (path_parsed : Node.parse path = .ok pathTree)
    (context_plain : contextTree.isPlainAbsolute = true)
    (path_plain : pathTree.isPlainAbsolute = true)
    (context_no_ogham : oghamSpace ∉ context) (path_no_ogham : oghamSpace ∉ path) :
    ∃ contextSteps pathSteps result resultSteps,
      steps context = .ok contextSteps ∧ steps path = .ok pathSteps ∧
      contextualize context path = .ok result ∧ steps result = .ok resultSteps ∧
      ∀ root node, tree.selects contextSteps root node → ∃ common,
        tree.ancestor (contextSteps.length - sharedLength contextSteps pathSteps) node =
          some common ∧
        ∀ target,
          (tree.selects resultSteps node target ↔ tree.selects pathSteps root target ∧
            tree.ancestor (pathSteps.length - sharedLength contextSteps pathSteps) target =
              some common) ∧
          (tree.selects resultSteps node target ↔
            tree.selects (pathSteps.take (sharedLength contextSteps pathSteps)) root common ∧
              tree.selects (pathSteps.drop (sharedLength contextSteps pathSteps)) common target) ∧
          (tree.Acyclic → (tree.selects resultSteps node target ↔
            tree.selects pathSteps root target ∧
              ∃ levels, tree.ancestor levels target = some common)) := by
  obtain ⟨contextSteps, context_steps, context_ordinary, -⟩ :=
    exists_steps_of_isPlainAbsolute context_parsed context_plain context_no_ogham
  obtain ⟨pathSteps, path_steps, path_ordinary, path_readable⟩ :=
    exists_steps_of_isPlainAbsolute path_parsed path_plain path_no_ogham
  obtain ⟨result, computed, result_steps⟩ := exists_contextualize context_steps path_steps
    (Node.ne_nil_of_parse context_parsed) path_readable
  refine ⟨contextSteps, pathSteps, result, _, context_steps, path_steps, computed, result_steps,
    fun root node selected => ?_⟩
  obtain ⟨common, common_eq, meaning⟩ :=
    tree.selects_contextualSteps context_ordinary path_ordinary selected
  have le := sharedLength_le contextSteps pathSteps
  have divided : ∀ target, tree.selects (contextualSteps contextSteps pathSteps) node target ↔
      tree.selects pathSteps root target ∧
        tree.ancestor (pathSteps.length - sharedLength contextSteps pathSteps) target =
          some common := fun target =>
    (meaning target).trans (tree.selects_take_drop_iff _ path_ordinary)
  -- The common node is as far below the root as there are shared steps.
  have depth : tree.ancestor (sharedLength contextSteps pathSteps) common = some root := by
    have up := tree.ancestor_of_selects context_ordinary selected
    rwa [← Nat.sub_add_cancel le.1, tree.ancestor_trans common_eq] at up
  refine ⟨common, common_eq, fun target => ⟨divided target, meaning target, fun acyclic => ?_⟩⟩
  rw [divided target]
  exact and_congr_right fun below =>
    (acyclic.ancestor_iff le.2 path_ordinary depth below).symm

/-- Added predicates are checked on the way back: in a tree of numbers, each below the one before it,
a path that only adds predicates to the context leads from the end of the context back to it. -/
theorem contextualize_selects_of_chain : ∃ (tree : NodeTree Nat) (contextSteps : List Step)
    (pathSteps : List Step) (result : Text) (resultSteps : List Step),
    steps "/a/b".toList = .ok contextSteps ∧ steps "/a[x]/b[y]".toList = .ok pathSteps ∧
      contextualize "/a/b".toList "/a[x]/b[y]".toList = .ok result ∧
      result = "..[x]/b[y]".toList ∧ steps result = .ok resultSteps ∧
      tree.selects contextSteps 0 2 ∧ tree.selects resultSteps 2 2 := by
  let tree : NodeTree Nat :=
    ⟨fun node => if node = 0 then none else some (node - 1),
      fun text node => (text, node) ∈ [("a".toList, 1), ("b".toList, 2)],
      fun predicate node => (predicate, node) ∈ [("x".toList, 1), ("y".toList, 2)]⟩
  have parses : ∀ text ∈ ["/a/b".toList, "/a[x]/b[y]".toList],
      (Node.parse text).map Node.isPlainAbsolute = .ok true ∧ oghamSpace ∉ text := by
    decide +kernel
  have exists_plain : ∀ text ∈ ["/a/b".toList, "/a[x]/b[y]".toList],
      ∃ found, Node.parse text = .ok found ∧ found.isPlainAbsolute = true := by
    intro text mem
    have plain := (parses text mem).1
    cases parsed : Node.parse text with
    | error error =>
      rw [parsed] at plain
      contradiction
    | ok found =>
      rw [parsed] at plain
      exact ⟨found, rfl, Except.ok.inj plain⟩
  obtain ⟨contextTree, context_parsed, context_plain⟩ := exists_plain "/a/b".toList (by simp)
  obtain ⟨pathTree, path_parsed, path_plain⟩ := exists_plain "/a[x]/b[y]".toList (by simp)
  obtain ⟨contextSteps, pathSteps, result, resultSteps, context_steps, path_steps, computed,
    result_steps, meaning⟩ := contextualize_selects tree context_parsed path_parsed context_plain
      path_plain (parses _ (by simp)).2 (parses _ (by simp)).2
  have contextSteps_eq : steps "/a/b".toList = .ok
      [⟨"a".toList, [], by decide +kernel, by decide⟩,
        ⟨"b".toList, [], by decide +kernel, by decide⟩] := by decide +kernel
  have pathSteps_eq : steps "/a[x]/b[y]".toList = .ok
      [⟨"a".toList, ["x".toList], by decide +kernel, by decide⟩,
        ⟨"b".toList, ["y".toList], by decide +kernel, by decide⟩] := by decide +kernel
  have result_eq : contextualize "/a/b".toList "/a[x]/b[y]".toList = .ok "..[x]/b[y]".toList := by
    decide +kernel
  obtain rfl := Except.ok.inj (contextSteps_eq.symm.trans context_steps)
  obtain rfl := Except.ok.inj (pathSteps_eq.symm.trans path_steps)
  have selected : tree.selects [⟨"a".toList, [], by decide +kernel, by decide⟩,
      ⟨"b".toList, [], by decide +kernel, by decide⟩] 0 2 :=
    ⟨1, (tree.leads_iff rfl).2 ⟨⟨rfl, by simp [tree]⟩, by simp⟩, 2,
      (tree.leads_iff rfl).2 ⟨⟨rfl, by simp [tree]⟩, by simp⟩, rfl⟩
  have below : tree.selects [⟨"a".toList, ["x".toList], by decide +kernel, by decide⟩,
      ⟨"b".toList, ["y".toList], by decide +kernel, by decide⟩] 0 2 :=
    ⟨1, (tree.leads_iff rfl).2 ⟨⟨rfl, by simp [tree]⟩, by simp [tree]⟩, 2,
      (tree.leads_iff rfl).2 ⟨⟨rfl, by simp [tree]⟩, by simp [tree]⟩, rfl⟩
  obtain ⟨common, common_eq, targets⟩ := meaning 0 2 selected
  exact ⟨tree, _, _, result, resultSteps, context_steps, path_steps, computed,
    Except.ok.inj (computed.symm.trans result_eq), result_steps, selected,
    (targets 2).1.2 ⟨below, common_eq⟩⟩

end Path

end LocationPath
