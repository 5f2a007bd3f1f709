import LocationPath.Proofs.Path.ContextualMeaning

/-! # Paths with double slashes and with dots

A **leg** of a path is a step with the slashes in front of it; a double slash leads to any node below
or to the node itself before the step is taken. The text of a path in a context has single slashes
only and goes back one level for each step that is left of the context. So it keeps to the path
where these steps are ordinary ones behind single slashes, and where the shared part of the path
goes as deep as that of the context; without these conditions it may lead elsewhere.

Main definitions: `Leg`, `Path.legs`, `NodeTree.follows` and `Node.isAbsoluteLocation`. Main
results: `NodeTree.follows_of_contextualSteps` and `Path.contextualize_follows`. -/

namespace LocationPath

universe u

/-- A step with the slashes in front of it. -/
structure Leg where
  /-- The slashes are a double slash. -/
  deep : Bool
  /-- The step behind them. -/
  step : Step
  deriving DecidableEq

/-- The legs of the path that a text writes. -/
def Path.legs (text : Text) : Except PathError (List Leg) := do
  let tree ← Node.parse text
  let found ← Path.steps text
  return List.zipWith Leg.mk (tree.deepsAfter false) found

namespace NodeTree

variable {ν : Type u} (tree : NodeTree ν)

/-- A node is another one or stands below it. -/
def Within (above node : ν) : Prop := ∃ levels, tree.ancestor levels node = some above

/-- Slashes lead from one node to another: a double slash to all nodes within it, a single one only
to itself. -/
def descends (deep : Bool) (origin start : ν) : Prop :=
  if deep then tree.Within origin start else start = origin

/-- Some legs, one after another, lead from one node to another. -/
def follows : List Leg → ν → ν → Prop
  | [], origin, target => target = origin
  | leg :: rest, origin, target => ∃ start middle, tree.descends leg.deep origin start ∧
    tree.leads leg.step start middle ∧ follows rest middle target

/-! ## Legs and steps -/

/-- All slashes lead to the node itself. -/
theorem descends_self (deep : Bool) (node : ν) : tree.descends deep node node := by
  cases deep with
  | false => rfl
  | true => exact ⟨0, rfl⟩

/-- A single slash leads nowhere else. -/
theorem descends_false_iff {origin start : ν} : tree.descends false origin start ↔ start = origin :=
  Iff.rfl

/-- Slashes that are as deep as others lead wherever these lead. -/
theorem descends_mono {deep deep' : Bool} (wide : deep = true → deep' = true) {origin start : ν}
    (h : tree.descends deep origin start) : tree.descends deep' origin start := by
  cases deep with
  | false =>
    rw [tree.descends_false_iff.1 h]
    exact tree.descends_self deep' origin
  | true =>
    rw [wide rfl]
    exact h

/-- A leg leads wherever its step leads. -/
theorem follows_of_selects {legs : List Leg} {origin target : ν}
    (h : tree.selects (legs.map (·.step)) origin target) : tree.follows legs origin target := by
  induction legs generalizing origin with
  | nil => exact h
  | cons leg legs ih =>
    obtain ⟨middle, leads, rest⟩ := h
    exact ⟨origin, middle, tree.descends_self leg.deep origin, leads, ih rest⟩

/-- Legs behind single slashes lead as their steps do. -/
theorem selects_of_follows {legs : List Leg} (single : ∀ leg ∈ legs, leg.deep = false)
    {origin target : ν} (h : tree.follows legs origin target) :
    tree.selects (legs.map (·.step)) origin target := by
  induction legs generalizing origin with
  | nil => exact h
  | cons leg legs ih =>
    obtain ⟨start, middle, place, leads, rest⟩ := h
    rw [single leg (by simp), descends_false_iff] at place
    subst place
    exact ⟨middle, leads, ih (fun other mem => single other (List.mem_cons_of_mem leg mem)) rest⟩

/-- Ordinary legs behind single slashes lead one level down each. -/
theorem ancestor_of_follows {legs : List Leg}
    (plain : ∀ leg ∈ legs, leg.deep = false ∧ leg.step.isDots = false) {origin target : ν}
    (h : tree.follows legs origin target) : tree.ancestor legs.length target = some origin := by
  have selected := tree.selects_of_follows (fun leg mem => (plain leg mem).1) h
  have up := tree.ancestor_of_selects (by
    intro step mem
    obtain ⟨leg, leg_mem, rfl⟩ := List.mem_map.1 mem
    exact (plain leg leg_mem).2) selected
  rwa [List.length_map] at up

open LocationPath.Path

/-- **The contextual steps keep to the path** wherever the context leads, if the legs that are left
of the context are ordinary ones behind single slashes, and if the shared legs of the path are as
deep as those of the context. -/
theorem follows_of_contextualSteps {context path : List Leg} {root node target : ν}
    (wide : ∀ index < sharedLength (context.map (·.step)) (path.map (·.step)),
      ∀ covering ∈ context[index]?, ∀ leg ∈ path[index]?, covering.deep = true → leg.deep = true)
    (plain : ∀ leg ∈ context.drop (sharedLength (context.map (·.step)) (path.map (·.step))),
      leg.deep = false ∧ leg.step.isDots = false)
    (followed : tree.follows context root node)
    (selected :
      tree.selects (contextualSteps (context.map (·.step)) (path.map (·.step))) node target) :
    tree.follows path root target := by
  induction context generalizing path root with
  | nil =>
    obtain rfl : node = root := followed
    rw [List.map_nil, contextualSteps_nil_left, selects_orStay] at selected
    exact tree.follows_of_selects selected
  | cons covering context ih =>
    cases path with
    | nil =>
      have nothing : sharedLength ((covering :: context).map (·.step)) [] = 0 := by
        simp [sharedLength, coveredLength]
      rw [List.map_nil, nothing, List.drop_zero] at plain
      have up := tree.ancestor_of_follows plain followed
      rw [List.map_nil, contextualSteps_nil_right, selects_orStay, selects_backs, List.length_map,
        up] at selected
      exact (Option.some.inj selected).symm
    | cons leg path =>
      rw [List.map_cons, List.map_cons] at wide plain selected
      cases covered : leg.step.isCoveredBy covering.step with
      | true =>
        -- The leg of the path leads wherever that of the context leads.
        rw [sharedLength_of_isCoveredBy covered] at wide plain
        obtain ⟨start, child, place, leads, rest⟩ := followed
        rw [contextualSteps_of_isCoveredBy covered] at selected
        have behind : tree.follows path child target :=
          ih (fun index lt => wide (index + 1) (by omega)) plain rest selected
        exact ⟨start, child, tree.descends_mono (wide 0 (by omega) covering rfl leg rfl) place,
          tree.leads_of_isCoveredBy covered leads, behind⟩
      | false =>
        rw [sharedLength_of_not_isCoveredBy covered] at wide plain
        by_cases narrows : leg.step.narrows covering.step = .ok true
        · rw [if_pos narrows] at wide plain
          rw [List.drop_succ_cons, List.drop_zero] at plain
          obtain ⟨start, child, place, leads, rest⟩ := followed
          -- The steps back come to the child, and the added predicates are checked there.
          have child_up := tree.ancestor_of_follows plain rest
          rw [← List.length_map (·.step)] at child_up
          rw [tree.selects_contextualSteps_of_narrows covered narrows child_up] at selected
          obtain ⟨holds, onward⟩ := selected
          exact ⟨start, child, tree.descends_mono (wide 0 Nat.one_pos covering rfl leg rfl) place,
            (tree.leads_iff_of_narrows narrows).2 ⟨leads, holds⟩, tree.follows_of_selects onward⟩
        · rw [if_neg narrows, List.drop_zero] at plain
          -- The steps back come to the node that the context was left at.
          have up := tree.ancestor_of_follows plain followed
          rw [List.length_cons, ← List.length_map (·.step)] at up
          rw [tree.selects_contextualSteps_of_not_narrows covered narrows up] at selected
          exact tree.follows_of_selects selected

end NodeTree

/-! ## The legs of a text -/

namespace Node

/-- Whether a node is a step with a node test and no axis, or dots. -/
def isLocationStep : Node → Bool
  | .step _ .unwritten _ _ | .dots _ _ _ => true
  | _ => false

/-- Whether a tree is such steps with single or double slashes between them. -/
def isLocationPath : Node → Bool
  | .binary _ left op right =>
    (op == ['/'] || op == ['/', '/']) && left.isLocationPath && right.isLocationPath
  | node => node.isLocationStep

/-- Whether a tree is the root alone or such a path from the root. -/
def isAbsoluteLocation : Node → Bool
  | .root _ op => op == ['/']
  | .absolute _ op relative => (op == ['/'] || op == ['/', '/']) && relative.isLocationPath
  | _ => false

/-- Each step of a relative path has slashes in front of it. -/
theorem length_deepsAfter_of_isLocationPath {tree : Node} (h : tree.isLocationPath = true)
    (deep : Bool) : (tree.deepsAfter deep).length = tree.outermost.length := by
  fun_induction isLocationPath tree generalizing deep with
  | case1 span left op right ihl ihr =>
    rw [Bool.and_eq_true, Bool.and_eq_true] at h
    rw [deepsAfter, outermost, List.length_append, List.length_append, ihl h.1.2, ihr h.2]
  | case2 tree no_binary =>
    cases tree with
    | step | dots => rfl
    | _ => simp [isLocationStep] at h

/-- Each step of a path from the root has slashes in front of it. -/
theorem length_deepsAfter_of_isAbsoluteLocation {tree : Node} (h : tree.isAbsoluteLocation = true)
    (deep : Bool) : (tree.deepsAfter deep).length = tree.outermost.length := by
  cases tree with
  | root span op => rfl
  | absolute span op relative =>
    rw [isAbsoluteLocation, Bool.and_eq_true] at h
    rw [deepsAfter, outermost, length_deepsAfter_of_isLocationPath h.2]
  | _ => simp [isAbsoluteLocation] at h

end Node

namespace Path

/-- Slashes and as many steps are legs with these steps. -/
theorem map_step_zipWith {deeps : List Bool} {found : List Step}
    (length : deeps.length = found.length) :
    (List.zipWith Leg.mk deeps found).map (·.step) = found := by
  induction deeps generalizing found with
  | nil => rw [List.length_eq_zero_iff.1 length.symm, List.zipWith_nil_left, List.map_nil]
  | cons deep deeps ih =>
    cases found with
    | nil => simp at length
    | cons step found =>
      rw [List.zipWith_cons_cons, List.map_cons, ih (by simpa using length)]

/-- Single slashes and as many steps are the legs of these steps. -/
theorem zipWith_replicate_false (found : List Step) :
    List.zipWith Leg.mk (List.replicate found.length false) found = found.map (Leg.mk false) := by
  induction found with
  | nil => rfl
  | cons step found ih =>
    rw [List.length_cons, List.replicate_succ, List.zipWith_cons_cons, ih, List.map_cons]

/-- A path from the root has a leg for each of its steps, and these can be read back. -/
theorem exists_legs {text : Text} {tree : Node} (parsed : Node.parse text = .ok tree)
    (location : tree.isAbsoluteLocation = true) (no_ogham : oghamSpace ∉ text) :
    ∃ found, legs text = .ok found ∧ steps text = .ok (found.map (·.step)) ∧
      ∀ step ∈ found.map (·.step), step.Readable := by
  obtain ⟨info, taken⟩ := PathInfo.exists_parse parsed no_ogham
  obtain ⟨derivation, tokenized, rfl⟩ := Node.parse_eq_ok_iff_exists.1 parsed
  obtain ⟨collection, -, made, steps_eq⟩ := PathInfo.exists_found derivation tokenized taken
  -- The slashes and the steps are both counted by the outermost steps of the tree.
  have length : (Node.deepsAfter false derivation.value).length = info.locationSteps.length := by
    rw [Node.length_deepsAfter_of_isAbsoluteLocation location, steps_eq, List.length_map,
      Node.length_of_mapM_candidate? made]
  have found : steps text = .ok info.locationSteps := by
    rw [steps, taken]
    rfl
  have steps_of_legs := map_step_zipWith length
  refine ⟨List.zipWith Leg.mk (Node.deepsAfter false derivation.value) info.locationSteps, ?_, ?_, ?_⟩
  · rw [legs, parsed, found]
    rfl
  · rw [steps_of_legs, found]
  · rw [steps_of_legs]
    exact PathInfo.readable taken no_ogham

/-- Readable steps between slashes are legs behind single slashes. -/
theorem legs_intercalate {found : List Step} (ne : found ≠ [])
    (readable : ∀ step ∈ found, step.Readable) :
    legs (['/'].intercalate (found.map Step.toText)) = .ok (found.map (Leg.mk false)) := by
  obtain ⟨tree, parsed, single⟩ := (chains_intercalate ne readable).exists_tree
  rw [legs, parsed, steps_intercalate ne readable]
  show Except.ok (List.zipWith Leg.mk (tree.deepsAfter false) found) = _
  rw [single, zipWith_replicate_false]

/-- A path **keeps to** a context if a double slash in front of a shared step of the context is one
of the path too, and if all that is left of the context are ordinary steps behind single slashes. -/
structure KeepsTo (context path : List Leg) : Prop where
  /-- The shared legs of the path are as deep as those of the context. -/
  wide : ∀ index < sharedLength (context.map (·.step)) (path.map (·.step)),
    ∀ covering ∈ context[index]?, ∀ leg ∈ path[index]?, covering.deep = true → leg.deep = true
  /-- What is left of the context leads one level down with each step. -/
  plain : ∀ leg ∈ context.drop (sharedLength (context.map (·.step)) (path.map (·.step))),
    leg.deep = false ∧ leg.step.isDots = false

variable {ν : Type u} (tree : NodeTree ν)

/-- **A path in a context selects only what the path selects**, if it keeps to the context: the
nodes that it leads to from a node that the context leads to are nodes that the path leads to from
the root. -/
theorem contextualize_follows {context path : Text} {contextTree pathTree : Node}
    (context_parsed : Node.parse context = .ok contextTree)
    (path_parsed : Node.parse path = .ok pathTree)
    (context_location : contextTree.isAbsoluteLocation = true)
    (path_location : pathTree.isAbsoluteLocation = true)
    (context_no_ogham : oghamSpace ∉ context) (path_no_ogham : oghamSpace ∉ path) :
    ∃ contextLegs pathLegs result resultLegs,
      legs context = .ok contextLegs ∧ legs path = .ok pathLegs ∧
      contextualize context path = .ok result ∧ legs result = .ok resultLegs ∧
      (KeepsTo contextLegs pathLegs → ∀ root node target, tree.follows contextLegs root node →
        tree.follows resultLegs node target → tree.follows pathLegs root target) := by
  obtain ⟨contextLegs, context_legs, context_steps, -⟩ :=
    exists_legs context_parsed context_location context_no_ogham
  obtain ⟨pathLegs, path_legs, path_steps, path_readable⟩ :=
    exists_legs path_parsed path_location path_no_ogham
  obtain ⟨ne, readable⟩ := readable_contextualSteps (contextLegs.map (·.step)) path_readable
  have computed := contextualize_eq context_steps path_steps
    (Node.ne_nil_of_parse context_parsed) path_readable
  refine ⟨contextLegs, pathLegs, _, _, context_legs, path_legs, computed,
    legs_intercalate ne readable, fun keeps root node target followed onward => ?_⟩
  have selected := tree.selects_of_follows (by simp) onward
  rw [List.map_map, Function.comp_def, List.map_id'] at selected
  exact tree.follows_of_contextualSteps keeps.wide keeps.plain followed selected

/-- Slashes and dots that are shared do no harm: in a tree of numbers, where 1 stands below 0, 2 below
1, and 3 and 4 below 2, the path in the context leads to where the path leads. -/
theorem contextualize_follows_of_shared_dot : ∃ (tree : NodeTree Nat)
    (contextLegs pathLegs : List Leg) (result : Text) (resultLegs : List Leg),
    legs "/a/./b/c".toList = .ok contextLegs ∧ legs "//a/./b[x]//d".toList = .ok pathLegs ∧
      contextualize "/a/./b/c".toList "//a/./b[x]//d".toList = .ok result ∧
      result = "..[x]/d".toList ∧ legs result = .ok resultLegs ∧ KeepsTo contextLegs pathLegs ∧
      tree.follows contextLegs 0 3 ∧ tree.follows resultLegs 3 4 ∧ tree.follows pathLegs 0 4 := by
  let tree : NodeTree Nat :=
    ⟨fun node => [(1, 0), (2, 1), (3, 2), (4, 2)].lookup node,
      fun text node => (text, node) ∈ [("a".toList, 1), ("b".toList, 2), ("c".toList, 3),
        ("d".toList, 4)], fun predicate node => (predicate, node) = ("x".toList, 2)⟩
  let a : Step := ⟨"a".toList, [], by decide +kernel, by decide⟩
  let b : Step := ⟨"b".toList, [], by decide +kernel, by decide⟩
  let narrowed : Step := ⟨"b".toList, ["x".toList], by decide +kernel, by decide⟩
  let c : Step := ⟨"c".toList, [], by decide +kernel, by decide⟩
  let d : Step := ⟨"d".toList, [], by decide +kernel, by decide⟩
  have context_shown : (Node.parse "/a/./b/c".toList).map Node.isAbsoluteLocation = .ok true := by
    decide +kernel
  have path_shown : (Node.parse "//a/./b[x]//d".toList).map Node.isAbsoluteLocation = .ok true := by
    decide +kernel
  obtain ⟨contextTree, context_parsed, context_location⟩ := map_eq_ok_iff.1 context_shown
  obtain ⟨pathTree, path_parsed, path_location⟩ := map_eq_ok_iff.1 path_shown
  obtain ⟨contextLegs, pathLegs, result, resultLegs, context_legs, path_legs, computed, result_legs,
    meaning⟩ := contextualize_follows tree context_parsed path_parsed context_location
      path_location (by decide +kernel) (by decide +kernel)
  have contextLegs_eq : legs "/a/./b/c".toList =
      .ok [⟨false, a⟩, ⟨false, .stay []⟩, ⟨false, b⟩, ⟨false, c⟩] := by decide +kernel
  have pathLegs_eq : legs "//a/./b[x]//d".toList =
      .ok [⟨true, a⟩, ⟨false, .stay []⟩, ⟨false, narrowed⟩, ⟨true, d⟩] := by decide +kernel
  have result_eq : contextualize "/a/./b/c".toList "//a/./b[x]//d".toList =
      .ok "..[x]/d".toList := by decide +kernel
  have resultLegs_eq : legs "..[x]/d".toList =
      .ok [⟨false, .back ["x".toList]⟩, ⟨false, d⟩] := by decide +kernel
  obtain rfl := Except.ok.inj (contextLegs_eq.symm.trans context_legs)
  obtain rfl := Except.ok.inj (pathLegs_eq.symm.trans path_legs)
  obtain rfl := Except.ok.inj (result_eq.symm.trans computed)
  obtain rfl := Except.ok.inj (resultLegs_eq.symm.trans result_legs)
  have keeps : KeepsTo [⟨false, a⟩, ⟨false, .stay []⟩, ⟨false, b⟩, ⟨false, c⟩]
      [⟨true, a⟩, ⟨false, .stay []⟩, ⟨false, narrowed⟩, ⟨true, d⟩] :=
    ⟨by decide +kernel, by decide +kernel⟩
  have followed : tree.follows [⟨false, a⟩, ⟨false, .stay []⟩, ⟨false, b⟩, ⟨false, c⟩] 0 3 := by
    refine ⟨0, 1, rfl, (tree.leads_iff rfl).2 ⟨⟨rfl, by simp [tree, a]⟩, by simp [a]⟩, ?_⟩
    refine ⟨1, 1, rfl, tree.leads_stay.2 ⟨rfl, by simp⟩, ?_⟩
    refine ⟨1, 2, rfl, (tree.leads_iff rfl).2 ⟨⟨rfl, by simp [tree, b]⟩, by simp [b]⟩, ?_⟩
    exact ⟨2, 3, rfl, (tree.leads_iff rfl).2 ⟨⟨rfl, by simp [tree, c]⟩, by simp [c]⟩, rfl⟩
  have onward : tree.follows [⟨false, .back ["x".toList]⟩, ⟨false, d⟩] 3 4 := by
    refine ⟨3, 2, rfl, tree.leads_back.2 ⟨rfl, by simp [tree]⟩, ?_⟩
    exact ⟨2, 4, rfl, (tree.leads_iff rfl).2 ⟨⟨rfl, by simp [tree, d]⟩, by simp [d]⟩, rfl⟩
  exact ⟨tree, _, _, _, _, context_legs, path_legs, computed, rfl, result_legs, keeps, followed,
    onward, meaning keeps 0 3 4 followed onward⟩

/-- A dot in what is left of the context is gone back over like a step that leads down: in a tree of
numbers, where 1 stands below 0, 2 below 1 and 3 below 0, the path in the context leads to a node
that the path does not lead to. -/
theorem contextualize_not_follows : ∃ (tree : NodeTree Nat) (contextLegs pathLegs : List Leg)
    (result : Text) (resultLegs : List Leg),
    (Node.parse "/a/b/.".toList).map Node.isAbsoluteLocation = .ok true ∧
      (Node.parse "/a/c".toList).map Node.isAbsoluteLocation = .ok true ∧
      legs "/a/b/.".toList = .ok contextLegs ∧ legs "/a/c".toList = .ok pathLegs ∧
      contextualize "/a/b/.".toList "/a/c".toList = .ok result ∧ result = "../../c".toList ∧
      legs result = .ok resultLegs ∧ tree.follows contextLegs 0 2 ∧ tree.follows resultLegs 2 3 ∧
      ¬ tree.follows pathLegs 0 3 := by
  let tree : NodeTree Nat :=
    ⟨fun node => [(1, 0), (2, 1), (3, 0)].lookup node,
      fun text node => (text, node) ∈ [("a".toList, 1), ("b".toList, 2), ("c".toList, 3)],
      fun _ _ => True⟩
  let a : Step := ⟨"a".toList, [], by decide +kernel, by decide⟩
  let b : Step := ⟨"b".toList, [], by decide +kernel, by decide⟩
  let c : Step := ⟨"c".toList, [], by decide +kernel, by decide⟩
  refine ⟨tree, [⟨false, a⟩, ⟨false, b⟩, ⟨false, .stay []⟩], [⟨false, a⟩, ⟨false, c⟩],
    "../../c".toList, [⟨false, .back []⟩, ⟨false, .back []⟩, ⟨false, c⟩], by decide +kernel,
    by decide +kernel, by decide +kernel, by decide +kernel, by decide +kernel, rfl,
    by decide +kernel, ?_, ?_, ?_⟩
  · refine ⟨0, 1, rfl, (tree.leads_iff rfl).2 ⟨⟨rfl, by simp [tree, a]⟩, by simp [a]⟩, ?_⟩
    refine ⟨1, 2, rfl, (tree.leads_iff rfl).2 ⟨⟨rfl, by simp [tree, b]⟩, by simp [b]⟩, ?_⟩
    exact ⟨2, 2, rfl, tree.leads_stay.2 ⟨rfl, by simp⟩, rfl⟩
  · refine ⟨2, 1, rfl, tree.leads_back.2 ⟨rfl, by simp⟩, ?_⟩
    refine ⟨1, 0, rfl, tree.leads_back.2 ⟨rfl, by simp⟩, ?_⟩
    exact ⟨0, 3, rfl, (tree.leads_iff rfl).2 ⟨⟨rfl, by simp [tree, c]⟩, by simp [c]⟩, rfl⟩
  · -- The only node that passes as an `a` is 1, but the parent of 3 is 0.
    rintro ⟨start, middle, place, first, start', target, place', second, eq⟩
    obtain rfl : 3 = target := eq
    obtain rfl : start' = middle := place'
    have named := ((tree.leads_iff rfl).1 first).1.2
    have parent := ((tree.leads_iff rfl).1 second).1.1
    have start_eq : start' = 1 := by simpa [tree, a] using named
    rw [start_eq] at parent
    exact absurd (Option.some.inj parent) (by decide)

end Path

end LocationPath
