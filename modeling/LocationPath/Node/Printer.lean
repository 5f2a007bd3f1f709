import LocationPath.Node
import LocationPath.Text.Literal
import LocationPath.Token

/-! # Printing expressions

The text of a tree: the least spelling, with no layout but around operator words and after commas.

Main definitions: `Node.render` (the text of a tree) and `Node.summary` (the text with the class of
the root, as records show it). -/

namespace LocationPath

/-- A name behind its qualifier; a missing qualifier and an empty one leave the name alone. -/
def qualified (qualifier : Option Text) (name : Text) : Text :=
  match qualifier with
  | none | some [] => name
  | some pre => pre ++ ':' :: name

/-- An axis in front of a node test; the empty name of an axis is not written. -/
def Axis.render : Axis → Text
  | .unwritten => []
  | .attribute => ['@']
  | .named name => if name.isEmpty then [] else name ++ [':', ':']

/-- The text of a node test. -/
def NodeTest.render : NodeTest → Text
  | .name _ qualifier text => qualified qualifier text
  | .type _ text literal =>
    text ++ Text.between '(' ')' (match literal with
      | none => []
      | some value => Literal.write value)

/-- A node test is printed the same at another place. -/
@[simp] theorem NodeTest.render_mapSpan (f : Span → Span) (test : NodeTest) :
    (test.mapSpan f).render = test.render := by
  cases test <;> rfl

/-- The text of a literal. -/
def Scalar.render : Scalar → Text
  | .text value => Literal.write value
  | number => number.plain

/-- An operator between its operands: words are set off by spaces, and a space follows a comma. -/
def renderOperator (op : Text) : Text :=
  if (OperatorWord.ofName? op).isSome then ' ' :: op ++ [' ']
  else if op = [','] then [',', ' ']
  else op

namespace Node

mutual

/-- The text of a tree. -/
def render : Node → Text
  | .unary _ op operand => op ++ operand.render
  | .binary _ left op right => left.render ++ renderOperator op ++ right.render
  | .filter _ base predicates => base.render ++ (renderAll predicates).flatten
  | .predicate _ condition => Text.between '[' ']' condition.render
  | .root _ op => op
  | .absolute _ op relative => op ++ relative.render
  | .step _ axis test predicates => axis.render ++ test.render ++ (renderAll predicates).flatten
  | .nodeTest test => test.render
  | .dots _ abbreviation predicates => abbreviation ++ (renderAll predicates).flatten
  | .variable _ qualifier name => '$' :: qualified qualifier name
  | .call _ qualifier name arguments =>
    qualified qualifier name ++ Text.between '(' ')' ([','].intercalate (renderAll arguments))
  | .sequence _ items => Text.between '(' ')' ([',', ' '].intercalate (renderAll items))
  | .literal _ value => value.render

/-- The texts of several trees. -/
def renderAll : List Node → List Text
  | [] => []
  | node :: rest => node.render :: renderAll rest

end

/-- Several trees are printed one by one. -/
theorem renderAll_eq_map (trees : List Node) : renderAll trees = trees.map render := by
  induction trees with
  | nil => simp [renderAll]
  | cons tree rest ih => simp [renderAll, ih]

/-- What stands where a node has nothing to show. -/
def nothing : Text := "None".toList

/-- A node in short: its class and its text. An operator is set off from its operands, and the root
alone from the path that is missing. -/
def summary (node : Node) : Text :=
  let shown := match node with
    | .unary _ op operand => [op, operand.render]
    | .binary _ left op right => [left.render, op, right.render]
    | .root _ op => [op, nothing]
    | .absolute _ op relative => [op, relative.render]
    | node => [node.render]
  Text.between '<' '>' ([' '].intercalate (node.className :: shown))

end Node

end LocationPath
