import LocationPath.Proofs.Placement.Nesting
import Mathlib.Data.List.Infix

/-! # Parts of derivations

Every node of a tree comes from a part of the derivation: the tokens of the node stand side by side,
and they derive the node alone. What they derive is a predicate, the test of a step, or an
expression of some level; and an expression of any level is a whole expression too.

Main definition: `Node.PartOf`. Main results: `Derivation.exists_expression` and
`Derivation.partOf_of_mem_nodes`. -/

namespace LocationPath

namespace Derivation

/-- **An expression of any level is an expression.** -/
theorem exists_expression : {level : Level} → (derivation : Derivation (.level level)) →
    ∃ whole : Derivation .expression,
      whole.tokens = derivation.tokens ∧ whole.value = derivation.value
  | .chain .sequence, derivation => ⟨derivation, rfl, rfl⟩
  | .chain .disjunction, derivation => exists_expression (@operand .sequence derivation)
  | .chain .conjunction, derivation => exists_expression (@operand .disjunction derivation)
  | .chain .equality, derivation => exists_expression (@operand .conjunction derivation)
  | .chain .relation, derivation => exists_expression (@operand .equality derivation)
  | .chain .sum, derivation => exists_expression (@operand .relation derivation)
  | .chain .product, derivation => exists_expression (@operand .sum derivation)
  | .negation, derivation => exists_expression (@operand .product derivation)
  | .chain .union, derivation => exists_expression (.unnegated derivation)
  | .path, derivation => exists_expression (@operand .union derivation)
  | .chain .steps, derivation => exists_expression (.relative derivation)
  | .step, derivation => exists_expression (@operand .steps derivation)
termination_by level => 11 - level.height
decreasing_by all_goals decide

end Derivation

/-- Whether a node is an expression of its own, and not a predicate or the test of a step. -/
def Node.standsAlone : Node → Bool
  | .predicate _ _ | .nodeTest _ => false
  | _ => true

namespace Derivation

/-- What `standsAlone` says of the phrases that build a node. -/
def StandsAlone : {phrase : Phrase} → Derivation phrase → Prop
  | .level _, derivation | .axisStep, derivation | .filter, derivation | .primary, derivation =>
    Node.standsAlone derivation.value = true
  | .predicate, _ | .nodeTest, _ | .qualifiedName, _ | .predicates, _ | .arguments, _ => True

/-- Steps and primary expressions are expressions of their own. -/
theorem standsAlone {phrase : Phrase} (derivation : Derivation phrase) :
    derivation.StandsAlone := by
  induction derivation with
  | operand only ih | unnegated only ih | relative only ih | axisStep only ih
  | filterStep only ih => exact ih
  | filtered base conditions ih =>
    rw [StandsAlone, value]
    split
    · exact ih
    · rfl
  | nameTest | anyTest | anyQualifiedTest | typeTest | typeTestFor | plainName | prefixedName
  | noPredicate | morePredicates | predicate | argument | moreArguments => trivial
  | _ => rfl

end Derivation

namespace Node

/-- A node is what a part of some tokens derives. -/
inductive PartOf (tokens : List Token) : Node → Prop where
  /-- A node test is a part of a step. -/
  | nodeTest (test : NodeTest) : PartOf tokens (.nodeTest test)
  /-- A predicate is a condition between brackets. -/
  | predicate {opening closing : Span} (condition : Derivation .expression)
    (inside : ⟨.openBracket, opening⟩ :: (condition.tokens ++ [⟨.closeBracket, closing⟩]) <:+: tokens) :
    PartOf tokens (.predicate (opening.through closing) condition.value)
  /-- Any other node is an expression of some level. -/
  | expression {level : Level} (part : Derivation (.level level)) (inside : part.tokens <:+: tokens) :
    PartOf tokens part.value

/-- What is a part of some tokens is one of any that hold these side by side. -/
theorem PartOf.mono {node : Node} {tokens tokens' : List Token} (h : node.PartOf tokens)
    (inside : tokens <:+: tokens') : node.PartOf tokens' := by
  cases h with
  | nodeTest test => exact .nodeTest test
  | predicate condition inner => exact .predicate condition (inner.trans inside)
  | expression part inner => exact .expression part (inner.trans inside)

/-- All nodes of a tree are parts of some tokens. -/
def PartsOf (tree : Node) (tokens : List Token) : Prop := ∀ part ∈ tree.nodes, part.PartOf tokens

/-- What holds of some tokens holds of any that hold these side by side. -/
theorem PartsOf.mono {tree : Node} {tokens tokens' : List Token} (h : tree.PartsOf tokens)
    (inside : tokens <:+: tokens') : tree.PartsOf tokens' :=
  fun part mem => (h part mem).mono inside

/-- The nodes of a tree are parts if the root is one and the nodes below its children are. -/
theorem PartOf.partsOf {tree : Node} {tokens : List Token} (root : tree.PartOf tokens)
    (below : ∀ child ∈ tree.children, child.PartsOf tokens) : tree.PartsOf tokens := by
  intro part mem
  rw [nodes_eq] at mem
  obtain rfl | mem := List.mem_cons.1 mem
  · exact root
  · obtain ⟨child, child_mem, mem⟩ := List.mem_flatMap.1 mem
    exact below child child_mem part mem

/-- The only node of a node test is a part. -/
theorem partsOf_nodeTest (test : NodeTest) (tokens : List Token) :
    (Node.nodeTest test).PartsOf tokens :=
  PartOf.partsOf (.nodeTest test) (by simp [children])

/-- An expression between commas is a node of the whole. -/
theorem mem_nodes_of_mem_commaItems {node item : Node} (mem : item ∈ node.commaItems) :
    item ∈ node.nodes := by
  fun_induction commaItems node with
  | case1 span left right ihl ihr =>
    obtain mem | mem := List.mem_append.1 mem
    · exact mem_nodes_of_mem_children (by simp [children]) (ihl mem)
    · exact mem_nodes_of_mem_children (by simp [children]) (ihr mem)
  | case2 | case3 =>
    rw [List.mem_singleton.1 mem]
    exact self_mem_nodes _

end Node

namespace Derivation

/-- What `partOf_of_mem_nodes` says of the nodes that a phrase stands for. -/
def HasParts : {phrase : Phrase} → Derivation phrase → Prop
  | .level _, derivation | .axisStep, derivation | .filter, derivation | .predicate, derivation
  | .primary, derivation => Node.PartsOf derivation.value derivation.tokens
  | .predicates, derivation | .arguments, derivation =>
    ∀ node ∈ derivation.value, Node.PartsOf node derivation.tokens
  | .nodeTest, _ | .qualifiedName, _ => True

/-- A step is a part of its own tokens. -/
private theorem partOf_axisStep (step : Derivation .axisStep) :
    Node.PartOf step.tokens step.value :=
  .expression (.axisStep step) (List.infix_refl _)

/-- A primary expression is a part of its own tokens. -/
private theorem partOf_primary (base : Derivation .primary) :
    Node.PartOf base.tokens base.value := by
  have part := Node.PartOf.expression (.filterStep (.filtered base .noPredicate))
    (List.infix_refl _)
  simpa [tokens, value] using part

/-- The predicates behind a node test or dots are parts of the step. -/
private theorem partsOf_conditions {conditions : Derivation .predicates} {tokens : List Token}
    (h : ∀ node ∈ conditions.value, Node.PartsOf node conditions.tokens)
    (behind : conditions.tokens <:+ tokens) :
    ∀ node ∈ conditions.value, Node.PartsOf node tokens :=
  fun node mem => (h node mem).mono behind.isInfix

/-- An expression whose only child is the expression behind its first token has parts if that one
has. -/
private theorem hasParts_of_behind {level inner : Level} {whole : Derivation (.level level)}
    {part : Derivation (.level inner)} {first : Token} (h : part.HasParts)
    (tokens_eq : whole.tokens = first :: part.tokens)
    (children_eq : Node.children whole.value = [part.value]) : whole.HasParts := by
  refine Node.PartOf.partsOf (.expression whole (List.infix_refl _)) ?_
  intro child mem
  obtain rfl : child = part.value := List.mem_singleton.1 (children_eq ▸ mem)
  rw [tokens_eq]
  exact Node.PartsOf.mono h (List.suffix_cons _ _).isInfix

/-- Every phrase has its parts: the root of what it stands for is derived by the phrase itself, and
the nodes below are parts of the phrases inside. -/
theorem hasParts {phrase : Phrase} (derivation : Derivation phrase) : derivation.HasParts := by
  induction derivation with
  | operand only ih | unnegated only ih | relative only ih | axisStep only ih
  | filterStep only ih => exact ih
  | link left op joins right ihl ihr =>
    refine Node.PartOf.partsOf (.expression (.link left op joins right) (List.infix_refl _)) ?_
    intro child mem
    obtain rfl | rfl : child = left.value ∨ child = right.value := by
      simpa [value, Node.children] using mem
    · exact ihl.mono (List.prefix_append _ _).isInfix
    · exact ihr.mono ((List.suffix_cons _ _).trans (List.suffix_append _ _)).isInfix
  | negated minus negative ih => exact hasParts_of_behind ih rfl rfl
  | root slash =>
    exact Node.PartOf.partsOf (.expression (.root slash) (List.infix_refl _))
      (by simp [value, Node.children])
  | absolute slash steps ih | anywhere slashes steps ih => exact hasParts_of_behind ih rfl rfl
  | testStep test conditions _ ih =>
    refine Node.PartOf.partsOf (partOf_axisStep _) (List.forall_mem_cons.2 ⟨?_, ?_⟩)
    · exact Node.partsOf_nodeTest _ _
    · exact partsOf_conditions ih (List.suffix_append _ _)
  | attributeStep sign test conditions _ ih =>
    refine Node.PartOf.partsOf (partOf_axisStep _) (List.forall_mem_cons.2 ⟨?_, ?_⟩)
    · exact Node.partsOf_nodeTest _ _
    · exact partsOf_conditions ih ((List.suffix_append _ _).trans (List.suffix_cons _ _))
  | namedAxisStep axis name mark test conditions _ ih =>
    refine Node.PartOf.partsOf (partOf_axisStep _) (List.forall_mem_cons.2 ⟨?_, ?_⟩)
    · exact Node.partsOf_nodeTest _ _
    · exact partsOf_conditions ih (((List.suffix_append _ _).trans (List.suffix_cons _ _)).trans
        (List.suffix_cons _ _))
  | selfStep dot conditions ih =>
    exact Node.PartOf.partsOf (partOf_axisStep _) (partsOf_conditions ih (List.suffix_cons _ _))
  | parentStep dots conditions ih =>
    exact Node.PartOf.partsOf (partOf_axisStep _) (partsOf_conditions ih (List.suffix_cons _ _))
  | nameTest | anyTest | anyQualifiedTest | typeTest | typeTestFor | plainName | prefixedName =>
    trivial
  | noPredicate => simp [HasParts, value]
  | morePredicates earlier last ihe ihl =>
    intro node mem
    obtain mem | mem := List.mem_append.1 mem
    · exact (ihe node mem).mono (List.prefix_append _ _).isInfix
    · rw [List.mem_singleton.1 mem]
      exact Node.PartsOf.mono ihl (List.suffix_append _ _).isInfix
  | predicate opening condition closing ih =>
    refine Node.PartOf.partsOf (.predicate condition (List.infix_refl _)) ?_
    intro child mem
    obtain rfl : child = condition.value := List.mem_singleton.1 mem
    exact ih.mono ((List.prefix_append _ _).isInfix.trans (List.suffix_cons _ _).isInfix)
  | filtered base conditions ihb ihc =>
    have base_parts := Node.PartsOf.mono ihb (List.prefix_append _ conditions.tokens).isInfix
    cases empty : conditions.value.isEmpty with
    | true =>
      -- Without predicates there is no filter, only the primary expression.
      simp only [HasParts, value, empty, if_true]
      exact base_parts
    | false =>
      have root : Node.PartOf (filtered base conditions).tokens (filtered base conditions).value :=
        .expression (.filterStep (.filtered base conditions)) (List.infix_refl _)
      simp only [HasParts, value, empty, Bool.false_eq_true, if_false] at root ⊢
      refine Node.PartOf.partsOf root (List.forall_mem_cons.2 ⟨base_parts, ?_⟩)
      exact partsOf_conditions ihc (List.suffix_append _ _)
  | reference | emptySequence | text | float | integer | emptyCall =>
    exact Node.PartOf.partsOf (partOf_primary _) (by simp [value, Node.children])
  | group opening inner closing ih =>
    refine Node.PartOf.partsOf (partOf_primary _) fun item mem part part_mem => ?_
    -- The commas between the parentheses are no nodes any more, but what is between them still is.
    have inner_mem := Node.nodes_subset (Node.mem_nodes_of_mem_commaItems mem) part_mem
    exact (ih part inner_mem).mono
      ((List.prefix_append _ _).isInfix.trans (List.suffix_cons _ _).isInfix)
  | call name opening arguments closing _ ih =>
    refine Node.PartOf.partsOf (partOf_primary _) fun node mem => ?_
    exact (ih node mem).mono (((List.prefix_append _ _).isInfix.trans
      (List.suffix_cons _ _).isInfix).trans (List.suffix_append _ _).isInfix)
  | argument only ih =>
    intro node mem
    rw [List.mem_singleton.1 mem]
    exact ih
  | moreArguments earlier comma last ihe ihl =>
    intro node mem
    obtain mem | mem := List.mem_append.1 mem
    · exact (ihe node mem).mono (List.prefix_append _ _).isInfix
    · rw [List.mem_singleton.1 mem]
      exact Node.PartsOf.mono ihl ((List.suffix_cons _ _).trans (List.suffix_append _ _)).isInfix

/-- **Every node of what a derivation builds is what a part of the tokens derives.** -/
theorem partOf_of_mem_nodes {level : Level} (derivation : Derivation (.level level)) :
    ∀ node ∈ derivation.value.nodes, Node.PartOf derivation.tokens node :=
  derivation.hasParts

end Derivation

end LocationPath
