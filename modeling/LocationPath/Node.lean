import LocationPath.Scalar
import LocationPath.Span

/-! # Expression trees

The tree of an expression. Every node has its place in the text, so that the exact spelling of each
part can be found again. The grammar builds trees of some shapes only, but the type admits all: a
predicate may stand alone, and an operator may be any text.

Main definitions: `Node`, `Node.span`, `Node.children` (in the order of the text), `Node.nodes` (all
nodes, each before its children) and `Node.mapSpan` (the tree at other places). -/

namespace LocationPath

/-- The axis of a step as it is written. -/
inductive Axis where
  /-- No axis is written. -/
  | unwritten
  /-- The sign of the attribute axis. -/
  | attribute
  /-- The name of an axis and a double colon. -/
  | named (name : Text)
  deriving DecidableEq, Repr

/-- What a step tests a node for, with its place in the text. -/
inductive NodeTest where
  /-- The name, or a star for any name. -/
  | name (span : Span) (qualifier : Option Text) (name : Text)
  /-- The type of the node; a processing instruction may be tested for its target too. -/
  | type (span : Span) (name : Text) (literal : Option Text)
  deriving DecidableEq, Repr

/-- The place of a node test. -/
def NodeTest.span : NodeTest → Span
  | .name span _ _ => span
  | .type span _ _ => span

/-- The node test at another place. -/
def NodeTest.mapSpan (f : Span → Span) : NodeTest → NodeTest
  | .name span qualifier text => .name (f span) qualifier text
  | .type span text literal => .type (f span) text literal

/-- A node of an expression tree. -/
inductive Node where
  /-- An operator in front of its operand. -/
  | unary (span : Span) (op : Text) (operand : Node)
  /-- An operator between its operands; the slashes between two steps are operators too. -/
  | binary (span : Span) (left : Node) (op : Text) (right : Node)
  /-- A primary expression with predicates. -/
  | filter (span : Span) (base : Node) (predicates : List Node)
  /-- A condition in brackets. -/
  | predicate (span : Span) (condition : Node)
  /-- The root alone. -/
  | root (span : Span) (op : Text)
  /-- A path from the root. -/
  | absolute (span : Span) (op : Text) (relative : Node)
  /-- An axis, a node test and predicates. -/
  | step (span : Span) (axis : Axis) (test : NodeTest) (predicates : List Node)
  /-- The node test of a step. -/
  | nodeTest (test : NodeTest)
  /-- One dot or two, with predicates. -/
  | dots (span : Span) (abbreviation : Text) (predicates : List Node)
  /-- A reference to a variable. -/
  | variable (span : Span) (qualifier : Option Text) (name : Text)
  /-- A call of a function. -/
  | call (span : Span) (qualifier : Option Text) (name : Text) (arguments : List Node)
  /-- Expressions in parentheses; none at all is the empty sequence. -/
  | sequence (span : Span) (items : List Node)
  /-- A text or a number. -/
  | literal (span : Span) (value : Scalar)

namespace Node

/-- The place of a node in the text. -/
def span : Node → Span
  | .unary span _ _ => span
  | .binary span _ _ _ => span
  | .filter span _ _ => span
  | .predicate span _ => span
  | .root span _ => span
  | .absolute span _ _ => span
  | .step span _ _ _ => span
  | .nodeTest test => test.span
  | .dots span _ _ => span
  | .variable span _ _ => span
  | .call span _ _ _ => span
  | .sequence span _ => span
  | .literal span _ => span

/-- The children of a node in the order of the text. -/
def children : Node → List Node
  | .unary _ _ operand => [operand]
  | .binary _ left _ right => [left, right]
  | .filter _ base predicates => base :: predicates
  | .predicate _ condition => [condition]
  | .root _ _ => []
  | .absolute _ _ relative => [relative]
  | .step _ _ test predicates => .nodeTest test :: predicates
  | .nodeTest _ => []
  | .dots _ _ predicates => predicates
  | .variable _ _ _ => []
  | .call _ _ _ arguments => arguments
  | .sequence _ items => items
  | .literal _ _ => []

mutual

/-- The nodes of a tree, each before its children. -/
def nodes (node : Node) : List Node :=
  match node with
  | .unary _ _ operand => node :: operand.nodes
  | .binary _ left _ right => node :: (left.nodes ++ right.nodes)
  | .filter _ base predicates => node :: (base.nodes ++ nodesOfAll predicates)
  | .predicate _ condition => node :: condition.nodes
  | .absolute _ _ relative => node :: relative.nodes
  | .step _ _ test predicates => node :: .nodeTest test :: nodesOfAll predicates
  | .dots _ _ predicates => node :: nodesOfAll predicates
  | .call _ _ _ arguments => node :: nodesOfAll arguments
  | .sequence _ items => node :: nodesOfAll items
  | .root _ _ | .nodeTest _ | .variable _ _ _ | .literal _ _ => [node]

/-- The nodes of several trees. -/
def nodesOfAll : List Node → List Node
  | [] => []
  | node :: rest => node.nodes ++ nodesOfAll rest

end

/-- The nodes of several trees are the nodes of each in turn. -/
theorem nodesOfAll_eq_flatMap (trees : List Node) : nodesOfAll trees = trees.flatMap nodes := by
  induction trees with
  | nil => simp [nodesOfAll]
  | cons tree rest ih => simp [nodesOfAll, ih]

/-- The nodes of a tree are its root and the nodes of its children. -/
theorem nodes_eq (node : Node) : node.nodes = node :: node.children.flatMap nodes := by
  cases node <;> simp [nodes, children, nodesOfAll_eq_flatMap]

mutual

/-- The tree with every span replaced. -/
def mapSpan (f : Span → Span) : Node → Node
  | .unary span op operand => .unary (f span) op (operand.mapSpan f)
  | .binary span left op right => .binary (f span) (left.mapSpan f) op (right.mapSpan f)
  | .filter span base predicates => .filter (f span) (base.mapSpan f) (mapSpanAll f predicates)
  | .predicate span condition => .predicate (f span) (condition.mapSpan f)
  | .root span op => .root (f span) op
  | .absolute span op relative => .absolute (f span) op (relative.mapSpan f)
  | .step span axis test predicates =>
    .step (f span) axis (test.mapSpan f) (mapSpanAll f predicates)
  | .nodeTest test => .nodeTest (test.mapSpan f)
  | .dots span abbreviation predicates => .dots (f span) abbreviation (mapSpanAll f predicates)
  | .variable span qualifier name => .variable (f span) qualifier name
  | .call span qualifier name arguments => .call (f span) qualifier name (mapSpanAll f arguments)
  | .sequence span items => .sequence (f span) (mapSpanAll f items)
  | .literal span value => .literal (f span) value

/-- Several trees with every span replaced. -/
def mapSpanAll (f : Span → Span) : List Node → List Node
  | [] => []
  | node :: rest => node.mapSpan f :: mapSpanAll f rest

end

/-- Several trees are mapped one by one. -/
theorem mapSpanAll_eq_map (f : Span → Span) (trees : List Node) :
    mapSpanAll f trees = trees.map (mapSpan f) := by
  induction trees with
  | nil => simp [mapSpanAll]
  | cons tree rest ih => simp [mapSpanAll, ih]

/-- Replacing the spans replaces the span of the root. -/
@[simp] theorem span_mapSpan (f : Span → Span) (node : Node) :
    (node.mapSpan f).span = f node.span := by
  cases node with
  | nodeTest test => cases test <;> simp [mapSpan, span, NodeTest.mapSpan, NodeTest.span]
  | _ => simp [mapSpan, span]

/-- The class of a node, as summaries name it. -/
def className : Node → Text
  | .unary _ _ _ => "UnaryExpression".toList
  | .binary _ _ _ _ => "BinaryExpression".toList
  | .filter _ _ _ => "FilterExpression".toList
  | .predicate _ _ => "Predicate".toList
  | .root _ _ | .absolute _ _ _ => "AbsolutePath".toList
  | .step _ _ _ _ => "Step".toList
  | .nodeTest (.name _ _ _) => "NameTest".toList
  | .nodeTest (.type _ _ _) => "NodeType".toList
  | .dots _ _ _ => "AbbreviatedStep".toList
  | .variable _ _ _ => "VariableReference".toList
  | .call _ _ _ _ => "FunctionCall".toList
  | .sequence _ _ => "Sequence".toList
  | .literal _ _ => "Literal".toList

/-- Whether a node is a predicate. -/
def isPredicate : Node → Bool
  | .predicate _ _ => true
  | _ => false

/-- The part of a text that a node was read from. -/
def source (node : Node) (text : Text) : Text := node.span.cut text

/-- The part of a text between the brackets of a predicate; no other node has one. -/
def innerSource? (node : Node) (text : Text) : Option Text :=
  match node with
  | .predicate span _ => some (span.cutInside text)
  | _ => none

end Node

end LocationPath
