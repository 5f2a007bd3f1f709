import LocationPath.Node.Printer

/-! # Outlines of expressions

A tree as indented lines: a line for the head of each node, and below it, one step further in, the
outlines of its parts. A predicate has no line of its own but is outlined as its condition.

Main definitions: `Node.outlineLines` (the lines with their depths) and `Node.outline` (the lines as
a text). -/

namespace LocationPath

/-- A line of an outline. -/
structure OutlineLine where
  /-- How far the line is set in. -/
  depth : Nat
  /-- What stands on the line. -/
  label : Text
  deriving DecidableEq

/-- A line of an outline as a text: each step in is shown by a point and a space. -/
def OutlineLine.toText (line : OutlineLine) : Text :=
  (List.replicate line.depth ['.', ' ']).flatten ++ line.label ++ ['\n']

/-- The head line of a node with predicates, which end in brackets if there are any. -/
def bracketed (label : Text) (predicates : List Node) : Text :=
  if predicates.isEmpty then label else label ++ ['[', ']']

/-- An axis as the head line of a step shows it, in front of a double colon. -/
def Axis.outline : Axis → Text
  | .unwritten => []
  | .attribute => ['@', ':', ':']
  | .named name => name ++ [':', ':']

namespace Node

mutual

/-- The lines of a tree at a depth. -/
def outlineLines (depth : Nat) : Node → List OutlineLine
  | .unary _ op operand => ⟨depth, op⟩ :: operand.outlineLines (depth + 1)
  | .binary _ left op right =>
    ⟨depth, op⟩ :: (left.outlineLines (depth + 1) ++ right.outlineLines (depth + 1))
  | .filter _ base predicates =>
    ⟨depth, ['[', ']']⟩ :: (base.outlineLines (depth + 1) ++ outlineLinesAll (depth + 1) predicates)
  | .predicate _ condition => condition.outlineLines depth
  -- The root has no path behind it, which the outline shows as well.
  | .root _ op => [⟨depth, op⟩, ⟨depth + 1, nothing⟩]
  | .absolute _ op relative => ⟨depth, op⟩ :: relative.outlineLines (depth + 1)
  | .step _ axis test predicates =>
    ⟨depth, bracketed (axis.outline ++ test.render) predicates⟩ ::
      outlineLinesAll (depth + 1) predicates
  | .nodeTest test => [⟨depth, test.render⟩]
  | .dots _ abbreviation predicates =>
    ⟨depth, bracketed abbreviation predicates⟩ :: outlineLinesAll (depth + 1) predicates
  | .variable _ qualifier name => [⟨depth, '$' :: qualified qualifier name⟩]
  | .call _ _ name arguments =>
    ⟨depth, name ++ ['(', ')']⟩ :: outlineLinesAll (depth + 1) arguments
  | .sequence _ items => ⟨depth, ['(', ')']⟩ :: outlineLinesAll (depth + 1) items
  | .literal _ value => [⟨depth, value.plain⟩]

/-- The lines of several trees at a depth. -/
def outlineLinesAll (depth : Nat) : List Node → List OutlineLine
  | [] => []
  | node :: rest => node.outlineLines depth ++ outlineLinesAll depth rest

end

/-- The outline of a tree. -/
def outline (node : Node) : Text := (node.outlineLines 0).flatMap OutlineLine.toText

end Node

end LocationPath
