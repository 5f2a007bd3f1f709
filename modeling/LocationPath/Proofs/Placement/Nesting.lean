import LocationPath.Proofs.Grammar.Derivation
import LocationPath.Proofs.Placement.Order

/-! # Spans nest

The span of a node is that of the tokens that it is derived from. So the children of a node lie
inside it, one behind another.

Main definitions: `Node.PlacedOn` (a node stands rightly around its children), `Node.Nested` (all
nodes of a tree do) and `Node.Row` (trees behind one another). Main results: `Derivation.nests` and
`Node.commaItems_row`. -/

namespace LocationPath

namespace Node

/-- A node stands on some tokens, and its children are inside it and in order. -/
structure PlacedOn (node : Node) (tokens : List Token) : Prop where
  /-- The node starts and stops with tokens. -/
  on : node.span.On tokens
  /-- The node is not empty. -/
  start_lt_stop : node.span.start < node.span.stop
  /-- The children are inside. -/
  inside : ∀ child ∈ node.children, child.span.within node.span = true
  /-- The children are in order. -/
  ordered : node.children.Pairwise fun first second => first.span.stop ≤ second.span.start

/-- All nodes of a tree stand rightly on some tokens. -/
def Nested (node : Node) (tokens : List Token) : Prop :=
  ∀ part ∈ node.nodes, part.PlacedOn tokens

/-- Trees on some tokens, one behind another. -/
structure Row (nodes : List Node) (tokens : List Token) : Prop where
  /-- Each tree stands rightly. -/
  nested : ∀ node ∈ nodes, node.Nested tokens
  /-- The trees are in order. -/
  ordered : nodes.Pairwise fun first second => first.span.stop ≤ second.span.start

/-- A node is one of the nodes of its tree. -/
theorem self_mem_nodes (node : Node) : node ∈ node.nodes := by
  rw [nodes_eq]
  exact List.mem_cons_self

/-- The nodes below a child are below the node. -/
theorem mem_nodes_of_mem_children {node child part : Node} (mem : child ∈ node.children)
    (part_mem : part ∈ child.nodes) : part ∈ node.nodes := by
  rw [nodes_eq]
  exact List.mem_cons_of_mem _ (List.mem_flatMap.2 ⟨child, mem, part_mem⟩)

/-- A child is smaller than its node. -/
theorem sizeOf_lt_of_mem_children {node child : Node} (mem : child ∈ node.children) :
    sizeOf child < sizeOf node := by
  -- A child in a list is smaller than the list.
  have of_mem : ∀ {nodes : List Node}, child ∈ nodes → sizeOf child < sizeOf nodes :=
    List.sizeOf_lt_of_mem
  cases node with
  | unary | absolute | predicate =>
    rw [List.mem_singleton.1 mem]
    simp only [unary.sizeOf_spec, absolute.sizeOf_spec, predicate.sizeOf_spec]
    omega
  | binary span left op right =>
    rw [binary.sizeOf_spec]
    obtain rfl | rfl : child = left ∨ child = right := by simpa [children] using mem
    · omega
    · omega
  | filter span base predicates =>
    rw [filter.sizeOf_spec]
    obtain rfl | mem := List.mem_cons.1 mem
    · omega
    · have := of_mem mem
      omega
  | step span axis test predicates =>
    rw [step.sizeOf_spec]
    obtain rfl | mem := List.mem_cons.1 mem
    · cases span
      rw [nodeTest.sizeOf_spec, Span.mk.sizeOf_spec]
      omega
    · have := of_mem mem
      omega
  | dots _ _ nodes | call _ _ _ nodes | sequence _ nodes =>
    have : sizeOf child < sizeOf nodes := of_mem mem
    simp only [dots.sizeOf_spec, call.sizeOf_spec, sequence.sizeOf_spec]
    omega
  | root | nodeTest | «variable» | literal => simp [children] at mem

/-- A property of all nodes holds if it passes from the children to the node. -/
theorem children_induction {motive : Node → Prop}
    (of_children : ∀ node, (∀ child ∈ node.children, motive child) → motive node) (node : Node) :
    motive node :=
  of_children node fun child _ => children_induction of_children child
termination_by sizeOf node
decreasing_by exact sizeOf_lt_of_mem_children (by assumption)

/-- The nodes below a part of a tree are nodes of the tree. -/
theorem nodes_subset {tree part : Node} (mem : part ∈ tree.nodes) : part.nodes ⊆ tree.nodes := by
  induction tree using children_induction with
  | of_children tree ih =>
    rw [nodes_eq] at mem
    obtain rfl | mem := List.mem_cons.1 mem
    · exact List.Subset.refl _
    · obtain ⟨child, child_mem, mem⟩ := List.mem_flatMap.1 mem
      exact fun inner inner_mem => mem_nodes_of_mem_children child_mem (ih child child_mem mem inner_mem)

/-- The nodes of a tree are no larger than the tree. -/
theorem sizeOf_le_of_mem_nodes {tree part : Node} (mem : part ∈ tree.nodes) :
    sizeOf part ≤ sizeOf tree := by
  induction tree using children_induction with
  | of_children tree ih =>
    rw [nodes_eq] at mem
    obtain rfl | mem := List.mem_cons.1 mem
    · exact Nat.le_refl _
    · obtain ⟨child, child_mem, mem⟩ := List.mem_flatMap.1 mem
      have := ih child child_mem mem
      have := sizeOf_lt_of_mem_children child_mem
      omega

/-- A node is not below a node that is below it. -/
theorem eq_of_mem_nodes {outer inner : Node} (mem : inner ∈ outer.nodes)
    (mem' : outer ∈ inner.nodes) : outer = inner := by
  rw [nodes_eq] at mem
  obtain rfl | mem := List.mem_cons.1 mem
  · rfl
  · obtain ⟨child, child_mem, mem⟩ := List.mem_flatMap.1 mem
    have := sizeOf_le_of_mem_nodes mem
    have := sizeOf_le_of_mem_nodes mem'
    have := sizeOf_lt_of_mem_children child_mem
    omega

/-- What stands rightly on some tokens does so on any that hold these. -/
theorem PlacedOn.mono {node : Node} {tokens tokens' : List Token} (h : node.PlacedOn tokens)
    (subset : tokens ⊆ tokens') : node.PlacedOn tokens' :=
  ⟨h.on.mono subset, h.start_lt_stop, h.inside, h.ordered⟩

/-- The root of a tree stands rightly. -/
theorem Nested.root {node : Node} {tokens : List Token} (h : node.Nested tokens) :
    node.PlacedOn tokens := h node node.self_mem_nodes

/-- The children of a tree stand rightly. -/
theorem Nested.row {node : Node} {tokens : List Token} (h : node.Nested tokens) :
    Row node.children tokens :=
  ⟨fun _ mem part part_mem => h part (mem_nodes_of_mem_children mem part_mem), h.root.ordered⟩

/-- All nodes of a tree are inside its span. -/
theorem Nested.within {tree part : Node} {tokens : List Token} (h : tree.Nested tokens)
    (mem : part ∈ tree.nodes) : part.span.within tree.span = true := by
  induction tree using children_induction with
  | of_children tree ih =>
    rw [nodes_eq] at mem
    obtain rfl | mem := List.mem_cons.1 mem
    · exact Span.within_self _
    · obtain ⟨child, child_mem, mem⟩ := List.mem_flatMap.1 mem
      exact Span.within_trans (ih child child_mem (h.row.nested child child_mem) mem)
        (h.root.inside child child_mem)

/-- Only one tree of a row is around a place that is not empty. -/
theorem Row.eq_of_within {nodes : List Node} {tokens : List Token} (h : Row nodes tokens)
    {first second : Node} (first_mem : first ∈ nodes) (second_mem : second ∈ nodes) {span : Span}
    (lt : span.start < span.stop) (first_within : span.within first.span = true)
    (second_within : span.within second.span = true) : first = second :=
  Span.eq_of_within h.ordered first_mem second_mem lt first_within second_within

/-- Each node of a tree stands around those behind it in the list of nodes, or in front of them. -/
theorem Nested.ordered {tree : Node} {tokens : List Token} (h : tree.Nested tokens) :
    tree.nodes.Pairwise fun first second =>
      second ∈ first.nodes ∨ first.span.stop ≤ second.span.start := by
  induction tree using children_induction with
  | of_children tree ih =>
    rw [nodes_eq]
    refine List.pairwise_cons.2 ⟨fun node mem => .inl ?_,
      List.pairwise_flatMap.2 ⟨fun child mem => ih child mem (h.row.nested child mem), ?_⟩⟩
    · rw [nodes_eq]
      exact List.mem_cons_of_mem _ mem
    · refine h.root.ordered.imp_of_mem fun {first second} first_mem second_mem le part mem part' mem' =>
        .inr ?_
      have within := (h.row.nested first first_mem).within mem
      have within' := (h.row.nested second second_mem).within mem'
      rw [Span.within_iff] at within within'
      omega

/-- A row on some tokens is one on any that hold these. -/
theorem Row.mono {nodes : List Node} {tokens tokens' : List Token} (h : Row nodes tokens)
    (subset : tokens ⊆ tokens') : Row nodes tokens' :=
  ⟨fun node mem part part_mem => (h.nested node mem part part_mem).mono subset, h.ordered⟩

/-- A row is one too with a token in front of its tokens. -/
theorem Row.cons {nodes : List Node} {tokens : List Token} (h : Row nodes tokens) (token : Token) :
    Row nodes (token :: tokens) :=
  h.mono (List.subset_cons_self _ _)

/-- A row is one too between a token in front of its tokens and one behind them. -/
theorem Row.between {nodes : List Node} {tokens : List Token} (h : Row nodes tokens)
    (first last : Token) : Row nodes (first :: (tokens ++ [last])) :=
  (h.mono (List.subset_append_left _ _)).cons first

/-- No trees are a row. -/
theorem row_nil (tokens : List Token) : Row [] tokens := ⟨by simp, by simp⟩

/-- One tree is a row if it stands rightly. -/
theorem row_singleton {node : Node} {tokens : List Token} (h : node.Nested tokens) :
    Row [node] tokens :=
  ⟨fun _ mem => List.mem_singleton.1 mem ▸ h, by simp⟩

/-- Rows on tokens behind one another are a row. -/
theorem Row.append {nodes nodes' : List Node} {tokens tokens' : List Token}
    (order : Token.InOrder (tokens ++ tokens')) (h : Row nodes tokens)
    (h' : Row nodes' tokens') : Row (nodes ++ nodes') (tokens ++ tokens') := by
  refine ⟨fun node mem => ?_, List.pairwise_append.2 ⟨h.ordered, h'.ordered, ?_⟩⟩
  · obtain mem | mem := List.mem_append.1 mem
    · exact (h.mono (List.subset_append_left _ _)).nested node mem
    · exact (h'.mono (List.subset_append_right _ _)).nested node mem
  · intro first mem second mem'
    exact (h.nested first mem).root.on.stop_le order (h'.nested second mem').root.on

/-- Rows inside spans behind one another are a row. -/
theorem Row.append_of_within {nodes nodes' : List Node} {tokens : List Token} {outer outer' : Span}
    (h : Row nodes tokens) (h' : Row nodes' tokens)
    (inside : ∀ node ∈ nodes, node.span.within outer = true)
    (inside' : ∀ node ∈ nodes', node.span.within outer' = true)
    (apart : outer.stop ≤ outer'.start) : Row (nodes ++ nodes') tokens := by
  refine ⟨fun node mem => ?_, List.pairwise_append.2 ⟨h.ordered, h'.ordered, ?_⟩⟩
  · obtain mem | mem := List.mem_append.1 mem
    · exact h.nested node mem
    · exact h'.nested node mem
  · intro first mem second mem'
    have within := inside first mem
    have within' := inside' second mem'
    rw [Span.within_iff] at within within'
    omega

/-- A tree stands rightly if its root is over all of some tokens in order and its children are a row
of them. -/
theorem Nested.of_row {node : Node} {tokens : List Token} (order : Token.InOrder tokens)
    (covers : node.span.Covers tokens) (row : Row node.children tokens) : node.Nested tokens := by
  intro part mem
  rw [nodes_eq] at mem
  obtain rfl | mem := List.mem_cons.1 mem
  · exact ⟨covers.on, covers.start_lt_stop order, fun child mem =>
      (row.nested child mem).root.on.within order covers, row.ordered⟩
  · obtain ⟨child, child_mem, mem⟩ := List.mem_flatMap.1 mem
    exact row.nested child child_mem part mem

/-- A node over a token and its only child behind the token stands rightly. -/
theorem Nested.behind {node child : Node} {token : Token} {tokens : List Token}
    (nested : child.Nested tokens) (covers : child.span.Covers tokens)
    (order : Token.InOrder (token :: tokens)) (span_eq : node.span = token.span.through child.span)
    (children_eq : node.children = [child]) :
    node.span.Covers (token :: tokens) ∧ node.Nested (token :: tokens) := by
  have around : node.span.Covers (token :: tokens) := span_eq ▸ covers.cons token
  refine ⟨around, .of_row order around ?_⟩
  rw [children_eq]
  exact (row_singleton nested).cons token

/-- The expressions between the commas of an expression are inside it. -/
theorem within_of_mem_commaItems {node : Node} {tokens : List Token} (h : node.Nested tokens) :
    ∀ item ∈ node.commaItems, item.span.within node.span = true := by
  fun_induction commaItems node with
  | case1 span left right ihl ihr =>
    intro item mem
    have left_nested := h.row.nested left (by simp [children])
    have right_nested := h.row.nested right (by simp [children])
    obtain mem | mem := List.mem_append.1 mem
    · exact Span.within_trans (ihl left_nested item mem) (h.root.inside left (by simp [children]))
    · exact Span.within_trans (ihr right_nested item mem)
        (h.root.inside right (by simp [children]))
  | case2 | case3 =>
    intro item mem
    rw [List.mem_singleton.1 mem]
    exact Span.within_self _

/-- The expressions between the commas of an expression are a row. -/
theorem commaItems_row {node : Node} {tokens : List Token} (h : node.Nested tokens) :
    Row node.commaItems tokens := by
  fun_induction commaItems node with
  | case1 span left right ihl ihr =>
    have left_nested := h.row.nested left (by simp [children])
    have right_nested := h.row.nested right (by simp [children])
    have apart : left.span.stop ≤ right.span.start := by
      simpa [children] using h.root.ordered
    exact (ihl left_nested).append_of_within (ihr right_nested)
      (within_of_mem_commaItems left_nested) (within_of_mem_commaItems right_nested) apart
  | case2 | case3 => exact row_singleton h

end Node

namespace Derivation

open Node

/-- The last of some nodes stops with the last of some tokens, unless there are neither. -/
def StopsWith (nodes : List Node) (tokens : List Token) : Prop :=
  nodes = [] ∧ tokens = [] ∨
    ∃ span : Span, span.Covers tokens ∧ nodes.getLast?.map (·.span.stop) = some span.stop

/-- The span of a head with predicates is over the tokens of both. -/
theorem StopsWith.covers {nodes : List Node} {front behind : List Token} {span : Span}
    (h : StopsWith nodes behind) (covers : span.Covers front) :
    (spanThrough span.start span.stop nodes).Covers (front ++ behind) := by
  obtain ⟨rfl, rfl⟩ | ⟨last, around, stop⟩ := h
  · rw [List.append_nil]
    exact covers
  · rw [spanThrough, stop]
    exact covers.append around

/-- What a derivation builds stands rightly on its tokens. -/
def Nests : {phrase : Phrase} → Derivation phrase → Prop
  | .level _, derivation | .axisStep, derivation | .filter, derivation
  | .predicate, derivation | .primary, derivation =>
    derivation.value.span.Covers derivation.tokens ∧ derivation.value.Nested derivation.tokens
  | .nodeTest, derivation | .qualifiedName, derivation =>
    derivation.value.span.Covers derivation.tokens
  | .predicates, derivation =>
    Row derivation.value derivation.tokens ∧ StopsWith derivation.value derivation.tokens
  | .arguments, derivation => Row derivation.value derivation.tokens

/-- A node test is a row of one. -/
theorem row_nodeTest {test : NodeTest} {tokens : List Token} (order : Token.InOrder tokens)
    (covers : test.span.Covers tokens) : Row [.nodeTest test] tokens :=
  row_singleton (.of_row order covers (row_nil tokens))

/-- **Spans nest**: what is derived from tokens in order stands rightly on them. -/
theorem nests {phrase : Phrase} (derivation : Derivation phrase)
    (order : Token.InOrder derivation.tokens) : derivation.Nests := by
  induction derivation with
  | operand only ih | unnegated only ih | relative only ih | axisStep only ih
  | filterStep only ih | nameTest only ih => exact ih order
  | link left op joins right ihl ihr =>
    obtain ⟨covers, nested⟩ := ihl order.left
    obtain ⟨covers', nested'⟩ := ihr order.right.tail
    have around := covers.append (covers'.cons op)
    refine ⟨around, .of_row order around ?_⟩
    exact (row_singleton nested).append order ((row_singleton nested').cons op)
  | negated _ _ ih | absolute _ _ ih | anywhere _ _ ih =>
    obtain ⟨covers, nested⟩ := ih order.tail
    exact nested.behind covers order rfl rfl
  | root slash => exact ⟨Span.covers_singleton _, .of_row order (Span.covers_singleton _) (row_nil _)⟩
  | testStep test conditions iht ihc =>
    have covers := iht order.left
    obtain ⟨row, stops⟩ := ihc order.right
    have around := stops.covers covers
    exact ⟨around, .of_row order around ((row_nodeTest order.left covers).append order row)⟩
  | attributeStep sign test conditions iht ihc =>
    have tested := order.tail
    have covers := iht tested.left
    obtain ⟨row, stops⟩ := ihc tested.right
    have around := stops.covers (covers.cons ⟨.atSign, sign⟩)
    refine ⟨around, .of_row order around ?_⟩
    exact ((row_nodeTest tested.left covers).append tested row).cons _
  | namedAxisStep axis name mark test conditions iht ihc =>
    have tested := order.tail.tail
    have covers := iht tested.left
    obtain ⟨row, stops⟩ := ihc tested.right
    have around := stops.covers ((covers.cons ⟨.axisMark, mark⟩).cons ⟨.name axis, name⟩)
    refine ⟨around, .of_row order around ?_⟩
    exact (((row_nodeTest tested.left covers).append tested row).cons _).cons _
  | selfStep dot conditions ih =>
    obtain ⟨row, stops⟩ := ih order.tail
    have around := stops.covers (Span.covers_singleton ⟨.dot, dot⟩)
    exact ⟨around, .of_row order around (row.cons _)⟩
  | parentStep dots conditions ih =>
    obtain ⟨row, stops⟩ := ih order.tail
    have around := stops.covers (Span.covers_singleton ⟨.dots, dots⟩)
    exact ⟨around, .of_row order around (row.cons _)⟩
  | anyTest | anyQualifiedTest | typeTest | typeTestFor | plainName | prefixedName =>
    exact ⟨_, rfl, _, rfl, rfl, rfl⟩
  | noPredicate => exact ⟨row_nil [], .inl ⟨rfl, rfl⟩⟩
  | morePredicates earlier last ihe ihl =>
    obtain ⟨row, stops⟩ := ihe order.left
    obtain ⟨covers, nested⟩ := ihl order.right
    refine ⟨row.append order (row_singleton nested), .inr ?_⟩
    obtain ⟨-, eq⟩ | ⟨span, around, -⟩ := stops
    · exact ⟨last.value.span, by rw [tokens, eq]; exact covers, by simp [value]⟩
    · exact ⟨span.through last.value.span, around.append covers, by simp [value]⟩
  | predicate opening condition closing ih =>
    have around := Span.covers_between ⟨.openBracket, opening⟩ ⟨.closeBracket, closing⟩ condition.tokens
    exact ⟨around, .of_row order around ((row_singleton (ih order.tail.left).2).between _ _)⟩
  | filtered base conditions ihb ihc =>
    obtain ⟨covers, nested⟩ := ihb order.left
    obtain ⟨row, stops⟩ := ihc order.right
    have around := stops.covers covers
    -- Without predicates nothing is built around the primary expression.
    cases empty : conditions.value with
    | nil =>
      obtain ⟨-, eq⟩ | ⟨span, -, stop⟩ := stops
      · simp only [Nests, value, tokens, empty, eq, List.append_nil, List.isEmpty_nil, if_true]
        exact ⟨covers, nested⟩
      · simp [empty] at stop
    | cons first more =>
      simp only [Nests, value, tokens, empty, List.isEmpty_cons] at around row ⊢
      exact ⟨around, .of_row order around ((row_singleton nested).append order row)⟩
  | reference dollar name ih =>
    have around := (ih order.tail).cons ⟨.dollar, dollar⟩
    exact ⟨around, .of_row order around (row_nil _)⟩
  | group opening inner closing ih =>
    have around := Span.covers_between ⟨.openParen, opening⟩ ⟨.closeParen, closing⟩ inner.tokens
    exact ⟨around, .of_row order around ((commaItems_row (ih order.tail.left).2).between _ _)⟩
  | emptySequence opening closing =>
    have around := Span.covers_between ⟨.openParen, opening⟩ ⟨.closeParen, closing⟩ []
    exact ⟨around, .of_row order around (row_nil _)⟩
  | text | float | integer =>
    exact ⟨Span.covers_singleton _, .of_row order (Span.covers_singleton _) (row_nil _)⟩
  | emptyCall name opening closing ih =>
    have around := (ih order.left).append
      (Span.covers_between ⟨.openParen, opening⟩ ⟨.closeParen, closing⟩ [])
    exact ⟨around, .of_row order around (row_nil _)⟩
  | call name opening arguments closing ihn iha =>
    have row := iha order.right.tail.left
    have around := (ihn order.left).append
      (Span.covers_between ⟨.openParen, opening⟩ ⟨.closeParen, closing⟩ arguments.tokens)
    refine ⟨around, .of_row order around ?_⟩
    exact (row.between _ _).mono (List.subset_append_right _ _)
  | argument only ih => exact row_singleton (ih order).2
  | moreArguments earlier comma last ihe ihl =>
    have row := row_singleton (ihl order.right.tail).2
    exact (ihe order.left).append order (row.cons ⟨.comma, comma⟩)

end Derivation

end LocationPath
