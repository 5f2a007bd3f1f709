import LocationPath.Proofs.Path.Cancelling

/-! # What a joined path selects

A joined path selects all that the second path selects from the nodes of the first one. What is
cancelled leads to a child and back to its parent, which is the node where it started; and predicates
that are dropped have only kept nodes out. The joined path may select more: an ordinary step that is
cancelled need not lead anywhere.

Besides ordinary steps and dots there are references to variables, which lead anywhere. They are never
cancelled.

Main definitions: `Step.isPlain`, `Terrain`, `Terrain.selects` and `Node.isRoute`. Main results:
`Terrain.selects_splice` and `Path.join_selects`. -/

namespace LocationPath

universe u

/-- Whether a step is a node test, either without an axis or on the attribute axis. -/
def Step.isPlain (step : Step) : Bool :=
  match Node.parse step.text with
  | .ok tree => tree.isPlainStep
  | .error _ => false

/-- The nodes of a tree, with steps of other kinds that may lead from any node to any other one. -/
structure Terrain (ν : Type u) extends NodeTree ν where
  /-- A step that is neither plain nor dots, such as a reference to a variable, leads from one node to
  another. -/
  refers : Text → ν → ν → Prop

namespace Terrain

variable {ν : Type u} (terrain : Terrain ν)

/-- A step leads from one node to another. -/
def leads (step : Step) (origin target : ν) : Prop :=
  if step.isDots || step.isPlain then terrain.toNodeTree.leads step origin target
  else terrain.refers step.text origin target ∧
    ∀ predicate ∈ step.predicates, terrain.holds predicate target

/-- Some steps, one after another, select a node from another one. -/
def selects : List Step → ν → ν → Prop
  | [], origin, target => target = origin
  | step :: rest, origin, target => ∃ middle, terrain.leads step origin middle ∧
    selects rest middle target

/-! ## Steps -/

/-- A plain step leads to those children that pass its test and its predicates. -/
theorem leads_iff_of_isPlain {step : Step} (plain : step.isPlain = true)
    (ordinary : step.isDots = false) {origin target : ν} :
    terrain.leads step origin target ↔
      (terrain.parent target = some origin ∧ terrain.passes step.text target) ∧
        ∀ predicate ∈ step.predicates, terrain.holds predicate target := by
  rw [leads, plain, Bool.or_true, if_pos rfl, NodeTree.leads_iff _ ordinary]

/-- A step back leads to the parent. -/
theorem leads_iff_of_isParent {step : Step} (parent : step.isParent = true) {origin target : ν} :
    terrain.leads step origin target ↔ terrain.parent origin = some target ∧
      ∀ predicate ∈ step.predicates, terrain.holds predicate target := by
  have text_eq : step.text = ['.', '.'] := by simpa [Step.isParent] using parent
  have no_self : step.isSelf = false := by simp [Step.isSelf, text_eq]
  have dotted : step.isDots = true := by rw [Step.isDots, parent, Bool.or_true]
  rw [leads, dotted, Bool.true_or, if_pos rfl, NodeTree.leads, no_self, parent, if_neg (by simp),
    if_pos rfl]

/-- **A step that is dropped with a step back leads nowhere else**: from a child a step back leads to
the node that the child was reached from. -/
theorem eq_of_leads_back {step back : Step} (plain : step.isPlain = true)
    (ordinary : step.isDots = false) (parent : back.isParent = true) {origin child target : ν}
    (down : terrain.leads step origin child) (up : terrain.leads back child target) :
    target = origin := by
  have below := ((terrain.leads_iff_of_isPlain plain ordinary).1 down).1.1
  have above := ((terrain.leads_iff_of_isParent parent).1 up).1
  rw [below] at above
  exact (Option.some.inj above).symm

/-- Without its predicates a step leads wherever it leads with them. -/
theorem leads_unfiltered {step : Step} {origin target : ν} (h : terrain.leads step origin target) :
    terrain.leads step.unfiltered origin target := by
  have none_left : ∀ predicate ∈ step.unfiltered.predicates, terrain.holds predicate target := by
    intro predicate mem
    exact absurd mem List.not_mem_nil
  unfold leads at h ⊢
  by_cases known : (step.isDots || step.isPlain) = true
  · rw [if_pos known] at h
    have known' : (step.unfiltered.isDots || step.unfiltered.isPlain) = true := known
    rw [if_pos known']
    exact ⟨h.1, none_left⟩
  · rw [if_neg known] at h
    have known' : ¬(step.unfiltered.isDots || step.unfiltered.isPlain) = true := known
    rw [if_neg known']
    exact ⟨h.1, none_left⟩

/-! ## Steps one after another -/

/-- Steps behind others go on from where the others lead. -/
theorem selects_append {first second : List Step} {origin target : ν} :
    terrain.selects (first ++ second) origin target ↔
      ∃ middle, terrain.selects first origin middle ∧ terrain.selects second middle target := by
  induction first generalizing origin with
  | nil => simp [selects]
  | cons step first ih =>
    simp only [List.cons_append, selects, ih]
    constructor
    · rintro ⟨next, leads, middle, front, behind⟩
      exact ⟨middle, ⟨next, leads, front⟩, behind⟩
    · rintro ⟨middle, ⟨next, leads, front⟩, behind⟩
      exact ⟨next, leads, middle, front, behind⟩

/-- A single step selects the nodes that it leads to. -/
theorem selects_singleton {step : Step} {origin target : ν} :
    terrain.selects [step] origin target ↔ terrain.leads step origin target := by
  simp [selects]

/-- Without their predicates steps select whatever they select with them. -/
theorem selects_unfiltered {steps : List Step} {origin target : ν}
    (h : terrain.selects steps origin target) :
    terrain.selects (steps.map Step.unfiltered) origin target := by
  induction steps generalizing origin with
  | nil => exact h
  | cons step steps ih =>
    obtain ⟨middle, leads, rest⟩ := h
    exact ⟨middle, terrain.leads_unfiltered leads, ih rest⟩

/-- A dot in place of no steps at all selects the same. -/
theorem selects_orStay {steps : List Step} {origin target : ν}
    (h : terrain.selects steps origin target) : terrain.selects (orStay steps) origin target := by
  cases steps with
  | nil =>
    obtain rfl : target = origin := h
    have stays : terrain.toNodeTree.leads (.stay []) target target :=
      (NodeTree.leads_stay _).2 ⟨rfl, by simp⟩
    refine terrain.selects_singleton.2 ?_
    rw [leads]
    exact (if_pos rfl).mpr stays
  | cons step steps => exact h

open LocationPath.Path

/-- **What is left of two paths leads wherever the one behind the other leads**, if the steps of the
first path that can be cancelled are plain. -/
theorem selects_splice {first second : List Step}
    (plain : ∀ step ∈ first, isBarrier step = false → step.isPlain = true)
    {start middle target : ν} (front : terrain.selects first start middle)
    (behind : terrain.selects second middle target) :
    terrain.selects (splice first second) start target := by
  induction first, second using meeting_induction generalizing middle with
  | forward first second forward =>
    rw [splice_of_forward first forward]
    exact terrain.selects_append.2 ⟨middle, front, behind⟩
  | barrier earlier last back rest blocked parent =>
    rw [splice_of_barrier blocked]
    exact terrain.selects_append.2 ⟨middle, front, behind⟩
  | overrun back rest parent =>
    obtain rfl : middle = start := front
    rwa [splice_nil_left]
  | cancelled earlier last back rest ordinary parent ih =>
    rw [splice_cancelled ordinary parent]
    obtain ⟨origin, front, down⟩ := terrain.selects_append.1 front
    obtain ⟨above, up, behind⟩ := behind
    have no_dots : last.isDots = false := by
      rw [isBarrier, Bool.or_eq_false_iff] at ordinary
      exact ordinary.1
    -- The last step leads to a child, from which the step back leads to where the last one started.
    have same : above = origin := terrain.eq_of_leads_back (plain last (by simp) ordinary) no_dots
      parent (terrain.selects_singleton.1 down) up
    subst same
    exact ih (fun step mem => plain step (List.mem_append_left _ mem)) front behind

end Terrain

/-! ## Routes -/

namespace Node

/-- Whether a node is a plain step, dots or a reference to a variable, with any predicates. -/
def isRouteStep : Node → Bool
  | .step _ .unwritten _ _ | .step _ .attribute _ _ | .dots _ _ _ | .variable _ _ _ => true
  | .filter _ (.variable _ _ _) _ => true
  | _ => false

/-- Whether a tree is such steps with single slashes between them. -/
def isRelativeRoute : Node → Bool
  | .binary _ left op right => op == ['/'] && left.isRelativeRoute && right.isRelativeRoute
  | node => node.isRouteStep

/-- Whether a tree is such steps with single slashes between them, or the root with or without such
steps behind it. -/
def isRoute : Node → Bool
  | .root _ op => op == ['/']
  | .absolute _ op relative => op == ['/'] && relative.isRelativeRoute
  | node => node.isRelativeRoute

/-- The outermost nodes of a relative route are its steps. -/
theorem isRouteStep_of_isRelativeRoute {tree : Node} (h : tree.isRelativeRoute = true) :
    ∀ node ∈ tree.outermost, node.isRouteStep = true := by
  fun_induction isRelativeRoute tree with
  | case1 span left op right ihl ihr =>
    rw [Bool.and_eq_true, Bool.and_eq_true] at h
    rw [outermost]
    exact List.forall_mem_append.2 ⟨ihl h.1.2, ihr h.2⟩
  | case2 tree no_binary =>
    intro node mem
    cases tree with
    | step | dots | «variable» | filter => rwa [List.mem_singleton.1 mem]
    | _ => simp [isRouteStep] at h

/-- The outermost nodes of a route are its steps. -/
theorem isRouteStep_of_isRoute {tree : Node} (h : tree.isRoute = true) :
    ∀ node ∈ tree.outermost, node.isRouteStep = true := by
  cases tree with
  | root span op => simp [outermost]
  | absolute span op relative =>
    rw [isRoute, Bool.and_eq_true] at h
    rw [outermost]
    exact isRouteStep_of_isRelativeRoute h.2
  | _ => exact isRouteStep_of_isRelativeRoute h

end Node

/-- A front that is the whole text of a step is the tree of the text. -/
theorem Front.Spells.parse {front : Front} {text : Text} (h : front.Spells text) :
    Node.parse text = .ok (front.step .noPredicate).value := by
  refine Node.parse_eq_ok_iff_exists.2
    ⟨.ofPath (.relative (.operand (front.step .noPredicate))), ?_, rfl⟩
  have tokens_eq : (front.step .noPredicate).tokens = front.tokens := by
    rw [Front.tokens_step]
    exact List.append_nil _
  show Tokenized false 0 text (front.step .noPredicate).tokens
  rw [tokens_eq]
  exact h.tokenized

/-- A reference to a variable is written with its sign. -/
theorem Front.Spells.head?_reference {dollar : Span} {name : Derivation .qualifiedName} {text : Text}
    (h : Front.Spells (.primary (.reference dollar name)) text) : text.head? = some '$' := by
  have start : dollar.start = 0 := congrArg Span.start h.span_eq
  obtain ⟨c, more, behind, text_eq, spelled⟩ := h.tokenized.exists_head start
  have mark : c = '$' := by
    cases spelled with
    | symbol mem =>
      have only : ∀ symbol ∈ Lexeme.symbols, symbol.1 = .dollar → symbol.2.1 = '$' := by
        decide +kernel
      exact only _ mem rfl
  rw [text_eq, mark]
  rfl

namespace Path

/-- **The steps of a route that can be cancelled are plain.** -/
theorem exists_steps_of_isRoute {text : Text} {tree : Node} (parsed : Node.parse text = .ok tree)
    (route : tree.isRoute = true) (no_ogham : oghamSpace ∉ text) : ∃ found,
      steps text = .ok found ∧ ∀ step ∈ found, isBarrier step = false → step.isPlain = true := by
  obtain ⟨info, taken⟩ := PathInfo.exists_parse parsed no_ogham
  obtain ⟨derivation, tokenized, rfl⟩ := Node.parse_eq_ok_iff_exists.1 parsed
  refine ⟨info.locationSteps, by rw [steps, taken]; rfl, fun step mem ordinary => ?_⟩
  obtain ⟨front, conditions, outermost, starts, stops, reads⟩ :=
    PathInfo.exists_readsAs tokenized taken no_ogham step mem
  have route_step := Node.isRouteStep_of_isRoute route _ outermost
  rw [isBarrier, Bool.or_eq_false_iff, reads.isDots, Front.isDots_move] at ordinary
  -- Only node tests, dots and references to variables are steps of a route.
  cases front with
  | unwritten | signed =>
    rw [Step.isPlain, reads.spells.parse]
    rfl
  | namedAxis => simp [Front.step, Derivation.value, Node.isRouteStep] at route_step
  | self | parent => simp [Front.isDots] at ordinary
  | primary base =>
    cases base with
    | reference dollar name =>
      have sign := Front.Spells.head?_reference reads.spells
      simp [Step.isVariable, sign] at ordinary
    | _ =>
      simp only [Front.step, Derivation.value] at route_step
      split at route_step <;> simp [Node.isRouteStep] at route_step

variable {ν : Type u} (terrain : Terrain ν)

/-- **A joined path loses no nodes.** What the second path selects from a node that the first path
selects, the joined path selects as well. The first path is a route: plain steps, dots and references
to variables between single slashes. The second path may be any accepted text. -/
theorem join_selects {first second result : Text} {firstTree : Node} {secondSteps : List Step}
    (first_parsed : Node.parse first = .ok firstTree) (first_route : firstTree.isRoute = true)
    (second_eq : steps second = .ok secondSteps) (first_no_ogham : oghamSpace ∉ first)
    (second_no_ogham : oghamSpace ∉ second) (joined : join first second = .ok result) :
    ∃ firstSteps resultSteps, steps first = .ok firstSteps ∧ steps result = .ok resultSteps ∧
      ∀ start middle target, terrain.selects firstSteps start middle →
        terrain.selects secondSteps middle target → terrain.selects resultSteps start target := by
  obtain ⟨firstSteps, first_eq, plain⟩ :=
    exists_steps_of_isRoute first_parsed first_route first_no_ogham
  have first_blank := not_isBlank_of_steps first_eq first_no_ogham
  have second_blank := not_isBlank_of_steps second_eq second_no_ogham
  have runs : ¬Overruns firstSteps secondSteps := by
    intro beyond
    rw [join_of_overruns first_eq second_eq first_blank second_blank beyond] at joined
    contradiction
  rw [join_of_not_overruns first_eq second_eq first_blank second_blank runs] at joined
  obtain rfl := Except.ok.inj joined
  obtain ⟨ne, readable⟩ := readable_orStay
    (readable_splice first_eq second_eq first_no_ogham second_no_ogham)
  -- Cancelling loses no nodes, nor do a dot for nothing and dropped predicates.
  refine ⟨firstSteps, _, first_eq, steps_bare ne readable, fun start middle target front behind => ?_⟩
  exact terrain.selects_unfiltered
    (terrain.selects_orStay (terrain.selects_splice plain front behind))

/-- A reference to a variable leads from one place of a tree of numbers to another, and the second of
two steps back is not cancelled against it. The joined path goes the same way without the step that
was cancelled and without the predicates. -/
theorem join_selects_of_reference : ∃ (terrain : Terrain Nat) (firstSteps secondSteps : List Step)
    (result : Text) (resultSteps : List Step),
    steps "/a/$v[p]/b[q]".toList = .ok firstSteps ∧ steps "..[r]/../@c".toList = .ok secondSteps ∧
      join "/a/$v[p]/b[q]".toList "..[r]/../@c".toList = .ok result ∧
      result = "a/$v/../@c".toList ∧ steps result = .ok resultSteps ∧
      terrain.selects firstSteps 0 6 ∧ terrain.selects secondSteps 6 7 ∧
      terrain.selects resultSteps 0 7 := by
  let terrain : Terrain Nat :=
    { parent := fun node => [(1, 0), (5, 4), (6, 5), (7, 4)].lookup node
      passes := fun text node => (text, node) ∈ [("a".toList, 1), ("b".toList, 6), ("@c".toList, 7)]
      holds := fun predicate node =>
        (predicate, node) ∈ [("p".toList, 5), ("q".toList, 6), ("r".toList, 5)]
      refers := fun text origin target => (text, origin, target) = ("$v".toList, 1, 5) }
  let a : Step := ⟨"a".toList, [], by decide +kernel, by decide⟩
  let v : Step := ⟨"$v".toList, ["p".toList], by decide +kernel, by decide⟩
  let b : Step := ⟨"b".toList, ["q".toList], by decide +kernel, by decide⟩
  let c : Step := ⟨"@c".toList, [], by decide +kernel, by decide⟩
  have first_shown : (Node.parse "/a/$v[p]/b[q]".toList).map Node.isRoute = .ok true := by
    decide +kernel
  obtain ⟨firstTree, first_parsed, first_route⟩ := map_eq_ok_iff.1 first_shown
  have first_eq : steps "/a/$v[p]/b[q]".toList = .ok [a, v, b] := by decide +kernel
  have second_eq : steps "..[r]/../@c".toList = .ok [.back ["r".toList], .back [], c] := by
    decide +kernel
  have joined : join "/a/$v[p]/b[q]".toList "..[r]/../@c".toList = .ok "a/$v/../@c".toList := by
    decide +kernel
  obtain ⟨firstSteps, resultSteps, first_eq', result_eq, loses_nothing⟩ := join_selects terrain
    first_parsed first_route second_eq (by decide +kernel) (by decide +kernel) joined
  obtain rfl := Except.ok.inj (first_eq.symm.trans first_eq')
  have reference : terrain.leads v 1 5 := by
    have unknown : (v.isDots || v.isPlain) = false := by decide +kernel
    rw [Terrain.leads, unknown, if_neg (by simp)]
    exact ⟨rfl, by simp [v, terrain]⟩
  have front : terrain.selects [a, v, b] 0 6 := by
    refine ⟨1, (terrain.leads_iff_of_isPlain (by decide +kernel) rfl).2 ⟨⟨rfl, ?_⟩, ?_⟩, 5, reference,
      6, (terrain.leads_iff_of_isPlain (by decide +kernel) rfl).2 ⟨⟨rfl, ?_⟩, ?_⟩, rfl⟩
    all_goals simp [terrain, a, b]
  have behind : terrain.selects [.back ["r".toList], .back [], c] 6 7 := by
    refine ⟨5, (terrain.leads_iff_of_isParent rfl).2 ⟨rfl, ?_⟩, 4,
      (terrain.leads_iff_of_isParent rfl).2 ⟨rfl, ?_⟩, 7,
      (terrain.leads_iff_of_isPlain (by decide +kernel) rfl).2 ⟨⟨rfl, ?_⟩, ?_⟩, rfl⟩
    all_goals simp [terrain, Step.back, c]
  exact ⟨terrain, _, _, _, resultSteps, first_eq, second_eq, joined, rfl, result_eq, front, behind,
    loses_nothing 0 6 7 front behind⟩

end Path

end LocationPath
