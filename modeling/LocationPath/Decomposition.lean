import LocationPath.Node.Parser
import LocationPath.Node.Printer
import LocationPath.PathInfo

/-! # Taking expressions apart

The steps of an expression are its axis steps, its steps of dots and its primary expressions, as far
as they stand neither inside a predicate nor inside one another. They are collected in one walk,
children before parents: each step found is put behind the ones that are waiting, and takes the
place of those at the end that it encloses.

The walk goes into predicates too, but counts how many it is inside of, and adds nothing there. The
texts of the steps are cut out of the source text, so that they keep their spelling.

Main definitions: `Node.walk`, `Collection.note` (what is done where a node is left),
`PathInfo.ofNode` and `PathInfo.parse`. -/

namespace LocationPath

/-- A step with the place of the node that it was found at. -/
structure Candidate where
  /-- The step. -/
  step : Step
  /-- The place of the step with its predicates. -/
  span : Span
  deriving DecidableEq

/-- The attribute step seen last. -/
structure AttributeStep where
  /-- The node test of the step. -/
  name : Text
  /-- The place of the step with its predicates. -/
  span : Span
  deriving DecidableEq

/-- What a walk through a tree has found so far. -/
structure Collection where
  /-- The steps that are waiting, the latest one first. -/
  waiting : List Candidate
  /-- The attribute step seen last, whether it is still waiting or not. -/
  lastAttribute : Option AttributeStep
  deriving DecidableEq

namespace Collection

/-- Nothing has been found. -/
def empty : Collection := ⟨[], none⟩

/-- Puts a step behind the waiting ones, in place of those at the end that it encloses. -/
def push (found : Collection) (candidate : Candidate) : Collection :=
  { found with
    waiting := candidate :: found.waiting.dropWhile (·.span.within candidate.span) }

/-- Adds the step with a text and predicates that stands at a place of the source. -/
def add (source : Text) (span : Span) (text : Text) (predicates : List Node)
    (found : Collection) : Except PathError Collection := do
  let step ← Step.of? text (predicates.map fun predicate => predicate.span.cutInside source)
  return found.push ⟨step, span⟩

/-- The waiting steps in the order of the source. -/
def candidates (found : Collection) : List Candidate := found.waiting.reverse

/-- The index of the attribute step among the candidates, if it is still one of them. -/
def attributeIndex (found : Collection) : Option Nat :=
  found.lastAttribute.bind fun latest => found.candidates.findIdx? (·.span == latest.span)

/-- The part of the source in front of the attribute step, without the slashes at its end; the whole
source if there is no attribute step. -/
def pathToLastElement (found : Collection) (source : Text) : Text :=
  match found.lastAttribute with
  | none => source
  | some latest => Text.dropTrailing '/' (source.take latest.span.start)

/-- The path that has been found. -/
def toPathInfo (found : Collection) (source : Text) : PathInfo :=
  .of (found.candidates.map (·.step)) (found.pathToLastElement source)
    (found.lastAttribute.map (·.name)) (found.attributeIndex.map fun index => (index : Int))

end Collection

namespace Node

/-- Whether a step is made of a node: an axis step, dots, or a primary expression. -/
def makesStep : Node → Bool
  | .step _ _ _ _ | .dots _ _ _ => true
  | .filter _ _ _ | .variable _ _ _ | .call _ _ _ _ | .sequence _ _ | .literal _ _ => true
  | _ => false

/-- The text of a step or primary expression without its predicates, cut out of the source. -/
def ownText (source : Text) : Node → Text
  | .step span _ test _ => source.slice span.start test.span.stop
  | .dots _ abbreviation _ => abbreviation
  | .filter _ base _ => base.source source
  | node => node.source source

/-- The predicates of a step or primary expression. -/
def ownPredicates : Node → List Node
  | .step _ _ _ predicates | .dots _ _ predicates | .filter _ _ predicates => predicates
  | _ => []

end Node

/-- The step of a node is added to what has been found, and an attribute step is noted as such. Only
the short form of the attribute axis is one. -/
def Collection.note (source : Text) (found : Collection) (node : Node) :
    Except PathError Collection := do
  let found ← found.add source node.span (node.ownText source) node.ownPredicates
  match node with
  | .step span .attribute test _ => return { found with lastAttribute := some ⟨test.render, span⟩ }
  | _ => return found

namespace Node

mutual

/-- Walks through a tree, children before parents, and adds the steps to what has been found. The
depth is the number of predicates that the tree is inside of. -/
def walk (source : Text) (depth : Nat) (found : Collection) (node : Node) :
    Except PathError Collection := do
  let found ← match node with
    | .unary _ _ operand => operand.walk source depth found
    | .binary _ left _ right => do
      let found ← left.walk source depth found
      right.walk source depth found
    | .filter _ base predicates => do
      let found ← base.walk source depth found
      walkAll source depth found predicates
    | .predicate _ condition => condition.walk source (depth + 1) found
    | .absolute _ _ relative => relative.walk source depth found
    | .step _ _ _ predicates => walkAll source depth found predicates
    | .dots _ _ predicates => walkAll source depth found predicates
    | .call _ _ _ arguments => walkAll source depth found arguments
    | .sequence _ items => walkAll source depth found items
    | .root _ _ | .nodeTest _ | .variable _ _ _ | .literal _ _ => pure found
  -- The steps inside are found first; adding the whole expression then throws them away. An attribute
  -- step stays noted. Inside of predicates nothing is added.
  if depth == 0 && node.makesStep then found.note source node else return found

/-- Walks through several trees. -/
def walkAll (source : Text) (depth : Nat) (found : Collection) :
    List Node → Except PathError Collection
  | [] => return found
  | node :: rest => do
    let found ← node.walk source depth found
    walkAll source depth found rest

end

/-- Adds the steps of a tree that is inside of no predicate to what has been found. -/
def collect (source : Text) (found : Collection) (tree : Node) : Except PathError Collection :=
  tree.walk source 0 found

end Node

/-- The path that a tree stands for, with its steps cut out of a source text. -/
def PathInfo.ofNode (tree : Node) (source : Text) : Except PathError PathInfo := do
  let found ← tree.collect source .empty
  return found.toPathInfo source

/-- The path that a text writes. -/
def PathInfo.parse (text : Text) : Except PathError PathInfo := do
  PathInfo.ofNode (← Node.parse text) text

end LocationPath
