import LocationPath.Proofs.Decomposition.Progress

/-! # Attribute steps

The walk through a tree notes each attribute step that it comes to, so that the last one is left in
the end. It comes to all attribute steps but those inside of predicates, and to them in the order of
the source.

Main definitions: `Node.IsInside`, `Node.IsLastAttributeStep` and `Node.attributeSteps`. Main results:
`Derivation.mem_attributeSteps_iff` and `Derivation.isLastAttributeStep`. -/

namespace LocationPath

namespace Node

/-- What is noted of a step that is written with the sign of the attribute axis. -/
def attributeStep? : Node → Option AttributeStep
  | .step span .attribute test _ => some ⟨test.render, span⟩
  | _ => none

/-- Whether a node is a step that is written with the sign of the attribute axis. -/
def isAttributeStep (node : Node) : Bool := node.attributeStep?.isSome

/-- Whether a node is a primary expression with expressions inside, or one with predicates. -/
def isFilterExpression : Node → Bool
  | .filter _ _ _ | .call _ _ _ _ | .sequence _ _ => true
  | _ => false

/-- A node is one of a kind, or it is somewhere below one in a tree. -/
def IsInside (tree : Node) (kind : Node → Bool) (node : Node) : Prop :=
  ∃ outer ∈ tree.nodes, kind outer = true ∧ node ∈ outer.nodes

/-- The last attribute step of a tree that is outside of predicates. -/
structure IsLastAttributeStep (tree last : Node) : Prop where
  /-- It is an attribute step of the tree. -/
  mem : last ∈ tree.nodes
  isAttributeStep : last.isAttributeStep = true
  /-- It is outside of predicates. -/
  outside : ¬ tree.IsInside isPredicate last
  /-- All others stand in front of it. -/
  latest : ∀ node ∈ tree.nodes, node.isAttributeStep = true → ¬ tree.IsInside isPredicate node →
    node = last ∨ node.span.stop ≤ last.span.start

/-! ## What a node is inside of -/

/-- A node below a child is inside of nothing that it is not inside of in the child, unless the root is
of the kind. -/
theorem not_isInside_of_child {tree child node : Node} {kind : Node → Bool} {tokens : List Token}
    (nested : tree.Nested tokens) (child_mem : child ∈ tree.children) (mem : node ∈ child.nodes)
    (other_kind : kind tree = false) (outside : ¬ child.IsInside kind node) :
    ¬ tree.IsInside kind node := by
  rintro ⟨outer, outer_mem, of_kind, inside⟩
  rw [nodes_eq] at outer_mem
  obtain rfl | outer_mem := List.mem_cons.1 outer_mem
  · rw [of_kind] at other_kind
    contradiction
  · obtain ⟨other, other_mem, outer_mem⟩ := List.mem_flatMap.1 outer_mem
    have node_nested := nested.row.nested child child_mem
    -- The children stand apart, so the node is below no other one.
    have same : child = other := nested.row.eq_of_within child_mem other_mem
      (node_nested node mem).start_lt_stop (node_nested.within mem)
      ((nested.row.nested other other_mem).within (nodes_subset outer_mem inside))
    exact outside ⟨outer, same ▸ outer_mem, of_kind, inside⟩

/-- A node that is inside one of a kind in its own tree is of the kind itself. -/
theorem IsInside.of_self {node : Node} {kind : Node → Bool} (h : node.IsInside kind node) :
    kind node = true := by
  obtain ⟨outer, mem, of_kind, inside⟩ := h
  exact eq_of_mem_nodes mem inside ▸ of_kind

/-! ## The walk -/

/-- The walk comes to the root of a tree or goes into its children. -/
theorem cases_of_mem_walked {tree node : Node} (mem : node ∈ tree.walked) :
    tree.isPredicate = false ∧ (node = tree ∧ tree.outermost = [tree] ∨
      ∃ child ∈ tree.children, node ∈ child.walked ∧ (child.outermost ⊆ tree.outermost ∨
        tree.isFilterExpression = true ∧ tree.outermost = [tree])) := by
  cases tree with
  | unary span op operand | absolute span op operand =>
    exact ⟨rfl, .inr ⟨operand, by simp [children], mem, .inl (List.Subset.refl _)⟩⟩
  | binary span left op right =>
    obtain mem | mem := List.mem_append.1 mem
    · exact ⟨rfl, .inr ⟨left, by simp [children], mem, .inl (List.subset_append_left _ _)⟩⟩
    · exact ⟨rfl, .inr ⟨right, by simp [children], mem, .inl (List.subset_append_right _ _)⟩⟩
  -- A filter expression stands for all that is below it.
  | filter span base predicates =>
    obtain mem | mem := List.mem_append.1 mem
    · exact ⟨rfl, .inr ⟨base, by simp [children], mem, .inr ⟨rfl, rfl⟩⟩⟩
    · exact ⟨rfl, .inl ⟨List.mem_singleton.1 mem, rfl⟩⟩
  | call | sequence =>
    obtain mem | mem := List.mem_append.1 mem
    · rw [walkedOfAll_eq_flatMap] at mem
      obtain ⟨child, child_mem, mem⟩ := List.mem_flatMap.1 mem
      exact ⟨rfl, .inr ⟨child, child_mem, mem, .inr ⟨rfl, rfl⟩⟩⟩
    · exact ⟨rfl, .inl ⟨List.mem_singleton.1 mem, rfl⟩⟩
  | predicate | root | nodeTest => exact absurd mem List.not_mem_nil
  | step | dots | «variable» | literal => exact ⟨rfl, .inl ⟨List.mem_singleton.1 mem, rfl⟩⟩

/-- The walk comes to nothing inside a predicate. -/
theorem not_isInside_of_mem_walked {tree node : Node} {tokens : List Token}
    (nested : tree.Nested tokens) (mem : node ∈ tree.walked) :
    ¬ tree.IsInside isPredicate node := by
  induction tree using children_induction with
  | of_children tree ih =>
    obtain ⟨no_predicate, ⟨rfl, -⟩ | ⟨child, child_mem, mem, -⟩⟩ := cases_of_mem_walked mem
    · intro inside
      rw [inside.of_self] at no_predicate
      contradiction
    · exact not_isInside_of_child nested child_mem (of_mem_walked _ _ mem).1 no_predicate
        (ih child child_mem (nested.row.nested child child_mem) mem)

/-- The walk comes to every outermost step. -/
theorem outermost_subset_walked (tree : Node) : tree.outermost ⊆ tree.walked := by
  fun_induction outermost tree with
  | case2 span left op right ihl ihr =>
    exact List.append_subset.2 ⟨List.subset_append_of_subset_left _ ihl,
      List.subset_append_of_subset_right _ ihr⟩
  | case1 | case3 => assumption
  | _ => simp [walked]

/-- What the walk comes to is an outermost step or inside of a filter expression that is one. -/
theorem outermost_or_inside {tree node : Node} (mem : node ∈ tree.walked) :
    node ∈ tree.outermost ∨
      ∃ outer ∈ tree.outermost, outer.isFilterExpression = true ∧ node ∈ outer.nodes := by
  induction tree using children_induction with
  | of_children tree ih =>
    obtain ⟨-, ⟨rfl, outermost⟩ | ⟨child, child_mem, mem, subset | ⟨filter, outermost⟩⟩⟩ :=
      cases_of_mem_walked mem
    · exact .inl (by simp [outermost])
    · obtain mem | ⟨outer, outer_mem, found⟩ := ih child child_mem mem
      · exact .inl (subset mem)
      · exact .inr ⟨outer, subset outer_mem, found⟩
    · exact .inr ⟨tree, by simp [outermost], filter,
        mem_nodes_of_mem_children child_mem (of_mem_walked _ _ mem).1⟩

/-- An outermost step is the root of a tree, or it is one of a child of a root that is no step. -/
theorem cases_of_mem_outermost {tree node : Node} (mem : node ∈ tree.outermost) :
    node = tree ∨ tree.isFilterExpression = false ∧
      ∃ child ∈ tree.children, node ∈ child.outermost := by
  cases tree with
  | unary span op operand | absolute span op operand =>
    exact .inr ⟨rfl, operand, by simp [children], mem⟩
  | binary span left op right =>
    obtain mem | mem := List.mem_append.1 mem
    · exact .inr ⟨rfl, left, by simp [children], mem⟩
    · exact .inr ⟨rfl, right, by simp [children], mem⟩
  | predicate | root | nodeTest => exact absurd mem List.not_mem_nil
  | _ => exact .inl (List.mem_singleton.1 mem)

/-- An attribute step that is an outermost one is inside of no filter expression. -/
theorem not_isInside_of_mem_outermost {tree node : Node} {tokens : List Token}
    (nested : tree.Nested tokens) (mem : node ∈ tree.outermost)
    (no_filter : node.isFilterExpression = false) : ¬ tree.IsInside isFilterExpression node := by
  induction tree using children_induction with
  | of_children tree ih =>
    obtain rfl | ⟨other_kind, child, child_mem, mem⟩ := cases_of_mem_outermost mem
    · intro inside
      rw [inside.of_self] at no_filter
      contradiction
    · have below := (of_mem_walked _ _ (outermost_subset_walked child mem)).1
      exact not_isInside_of_child nested child_mem below other_kind
        (ih child child_mem (nested.row.nested child child_mem) mem)

/-! ## The attribute steps of a walk -/

/-- The attribute steps that the walk comes to. -/
def attributeSteps (tree : Node) : List Node := tree.walked.filter isAttributeStep

mutual

/-- The attribute steps of a tree stand in the order of its nodes. -/
theorem attributeSteps_sublist : (tree : Node) → tree.attributeSteps.Sublist tree.nodes
  | .unary _ _ operand | .absolute _ _ operand => operand.attributeSteps_sublist.cons _
  | .binary _ left _ right => by
    rw [attributeSteps, walked, List.filter_append]
    exact (left.attributeSteps_sublist.append right.attributeSteps_sublist).cons _
  | .filter _ base predicates => by
    rw [attributeSteps, walked, List.filter_append]
    -- The predicates are nodes that the walk leaves out.
    exact (base.attributeSteps_sublist.append (List.nil_sublist _)).cons _
  | .call _ _ _ trees | .sequence _ trees => by
    rw [attributeSteps, walked, List.filter_append]
    show (_ ++ []).Sublist _
    rw [List.append_nil]
    exact (filter_walkedOfAll_sublist trees).cons _
  | .step span axis test predicates => by
    rw [attributeSteps, walked, nodes]
    exact List.filter_sublist.trans (.cons_cons _ (List.nil_sublist _))
  | .predicate _ _ | .root _ _ | .nodeTest _ | .dots _ _ _ | .variable _ _ _ | .literal _ _ =>
    List.nil_sublist _

theorem filter_walkedOfAll_sublist : (trees : List Node) →
    ((walkedOfAll trees).filter isAttributeStep).Sublist (nodesOfAll trees)
  | [] => List.nil_sublist _
  | tree :: rest => by
    rw [walkedOfAll, nodesOfAll, List.filter_append]
    exact tree.attributeSteps_sublist.append (filter_walkedOfAll_sublist rest)

end

/-- The walk comes to what it comes to in the outermost steps. -/
theorem walked_eq_flatMap (tree : Node) : tree.walked = tree.outermost.flatMap walked := by
  fun_induction outermost tree with
  | case1 _ _ _ ih | case3 _ _ _ ih => exact ih
  | case2 span left op right ihl ihr => rw [walked, ihl, ihr, List.flatMap_append]
  | case4 | case5 | case6 => rfl
  | _ => simp

/-- The attribute steps of a tree are those of its outermost steps. -/
theorem attributeSteps_eq_flatMap (tree : Node) :
    tree.attributeSteps = tree.outermost.flatMap attributeSteps := by
  rw [attributeSteps, walked_eq_flatMap, List.filter_flatMap]
  rfl

end Node

namespace Derivation

/-- The walk comes to every attribute step that is outside of predicates. -/
theorem mem_walked_of_outside (derivation : Derivation .expression) {node : Node}
    (mem : node ∈ Node.nodes derivation.value) (signed : node.isAttributeStep = true)
    (outside : ¬ Node.IsInside derivation.value Node.isPredicate node) :
    node ∈ Node.walked derivation.value := by
  have guarded := derivation.guarded
  generalize (derivation.value : Node) = tree at *
  induction tree using Node.children_induction with
  | of_children tree ih =>
    have no_predicate : tree.isPredicate = false := by
      by_contra predicate
      exact outside ⟨tree, tree.self_mem_nodes, by simpa using predicate, mem⟩
    rw [Node.nodes_eq] at mem
    obtain rfl | below := List.mem_cons.1 mem
    · cases node <;> first | contradiction | exact List.mem_singleton_self _
    · obtain ⟨child, child_mem, below⟩ := List.mem_flatMap.1 below
      have outside' : ¬ child.IsInside Node.isPredicate node := fun ⟨outer, outer_mem, inside⟩ =>
        outside ⟨outer, Node.mem_nodes_of_mem_children child_mem outer_mem, inside⟩
      have walked := ih child child_mem below outside' (guarded.child child_mem)
      rw [Node.walked_eq guarded no_predicate]
      exact List.mem_append_left _ (List.mem_flatMap.2 ⟨child, child_mem, walked⟩)

/-- **The attribute steps of the walk are those outside of predicates.** -/
theorem mem_attributeSteps_iff {text : Text} (derivation : Derivation .expression)
    (tokenized : Tokenized false 0 text derivation.tokens) {node : Node} :
    node ∈ Node.attributeSteps derivation.value ↔ node ∈ Node.nodes derivation.value ∧
      node.isAttributeStep = true ∧ ¬ Node.IsInside derivation.value Node.isPredicate node := by
  rw [Node.attributeSteps, List.mem_filter]
  constructor
  · rintro ⟨mem, signed⟩
    exact ⟨(Node.of_mem_walked _ node mem).1, signed,
      Node.not_isInside_of_mem_walked (derivation.nests tokenized.inOrder).2 mem⟩
  · rintro ⟨mem, signed, outside⟩
    exact ⟨derivation.mem_walked_of_outside mem signed outside, signed⟩

/-- Below an attribute step are attribute steps only inside of its predicates. -/
theorem eq_or_isInside_of_mem_nodes (derivation : Derivation .expression) {outer inner : Node}
    (mem : outer ∈ Node.nodes derivation.value) (signed : outer.isAttributeStep = true)
    (inside : inner ∈ outer.nodes) (inner_signed : inner.isAttributeStep = true) :
    inner = outer ∨ Node.IsInside derivation.value Node.isPredicate inner := by
  have guarded := derivation.guarded outer mem
  cases outer with
  | step span axis test predicates =>
    rw [Node.nodes_eq] at inside
    obtain rfl | inside := List.mem_cons.1 inside
    · exact .inl rfl
    · obtain ⟨child, child_mem, inside⟩ := List.mem_flatMap.1 inside
      obtain rfl | own := List.mem_cons.1 child_mem
      · rw [List.mem_singleton.1 inside] at inner_signed
        contradiction
      · exact .inr ⟨child, Node.nodes_subset mem
          (Node.mem_nodes_of_mem_children child_mem child.self_mem_nodes), guarded child own, inside⟩
  | _ => contradiction

/-- **The last attribute step of the walk is the last one of the source** that is outside of
predicates. -/
theorem isLastAttributeStep {text : Text} (derivation : Derivation .expression)
    (tokenized : Tokenized false 0 text derivation.tokens) {last : Node}
    (h : (Node.attributeSteps derivation.value).getLast? = some last) :
    Node.IsLastAttributeStep derivation.value last := by
  obtain ⟨mem, signed, outside⟩ :=
    (derivation.mem_attributeSteps_iff tokenized).1 (List.mem_of_getLast? h)
  refine ⟨mem, signed, outside, fun node node_mem node_signed node_outside => ?_⟩
  -- The walk keeps the order of the nodes, in which each stands around those behind it or in front.
  obtain ⟨earlier, eq⟩ := List.getLast?_eq_some_iff.1 h
  have ordered := (derivation.nests tokenized.inOrder).2.ordered.sublist
    (Node.attributeSteps_sublist derivation.value)
  have found := (derivation.mem_attributeSteps_iff tokenized).2
    ⟨node_mem, node_signed, node_outside⟩
  rw [eq] at ordered found
  obtain found | found := List.mem_append.1 found
  · obtain inside | le :=
      (List.pairwise_append.1 ordered).2.2 node found last (List.mem_singleton_self _)
    · obtain eq | inside :=
        derivation.eq_or_isInside_of_mem_nodes node_mem node_signed inside signed
      · exact .inl eq.symm
      · exact absurd inside outside
    · exact .inr le
  · exact .inl (List.mem_singleton.1 found)

end Derivation

end LocationPath
