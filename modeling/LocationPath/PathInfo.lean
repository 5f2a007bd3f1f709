import LocationPath.Step

/-! # Paths as lists of steps

What is known of a path after it has been taken apart: its steps, the attribute that it ends on, and
the part of its text that leads to the last element.

Main definitions: `PathInfo`, `PathInfo.of`, `PathInfo.steps` (the steps without the one to the
attribute) and `PathInfo.lastStep`. -/

namespace LocationPath

/-- A path as a list of steps. -/
structure PathInfo where
  /-- All steps, with the one to the attribute. -/
  locationSteps : List Step
  /-- The text of the path up to its last element. -/
  pathToLastElement : Text
  /-- The name of the attribute, if the path ends on one. -/
  attributeName : Option Text
  /-- The index of the step to the attribute among all steps; a negative one counts from the end. -/
  attributeIndex : Option Int
  deriving DecidableEq

/-- The number of elements in front of an index in a list of some length. A negative index counts
from the end, and an index outside the list stands for the bound of it that is nearer. -/
def frontLength (length : Nat) (index : Int) : Nat :=
  if index < 0 then (length + index).toNat else min index.toNat length

/-- The list without the element at an index: all in front of the index, and all from the next index
on. -/
def withoutIndex {α : Type} (list : List α) (index : Int) : List α :=
  list.take (frontLength list.length index) ++ list.drop (frontLength list.length (index + 1))

/-- At a place of the list just the element there is left out. -/
theorem withoutIndex_natCast {α : Type} {list : List α} {index : Nat} (h : index < list.length) :
    withoutIndex list index = list.eraseIdx index := by
  have front : frontLength list.length (index : Int) = index := by
    rw [frontLength, if_neg (by omega)]
    omega
  have back : frontLength list.length ((index : Int) + 1) = index + 1 := by
    rw [frontLength, if_neg (by omega)]
    omega
  rw [withoutIndex, front, back, List.eraseIdx_eq_take_drop_succ]

namespace PathInfo

/-- The path with the given steps. Without an index the attribute step is the last one, provided
that the path has an attribute name and its last step is written with the sign of the attribute
axis. -/
def of (steps : List Step) (pathToLastElement : Text) (attributeName : Option Text)
    (attributeIndex : Option Int) : PathInfo :=
  let endsOnAttribute := attributeName.isSome &&
    steps.getLast?.any fun last => last.text.head? == some '@'
  -- A given index goes before the one that the last step suggests.
  let index := if attributeIndex.isNone && endsOnAttribute then some (steps.length - 1 : Int)
    else attributeIndex
  ⟨steps, pathToLastElement, attributeName, index⟩

/-- The steps of a path are the ones that it is made with. -/
@[simp] theorem locationSteps_of (steps : List Step) (path : Text) (name : Option Text)
    (index : Option Int) : (of steps path name index).locationSteps = steps := rfl

/-- A given index is kept. -/
@[simp] theorem attributeIndex_of_some (steps : List Step) (path : Text) (name : Option Text)
    (index : Int) : (of steps path name (some index)).attributeIndex = some index := by
  simp [of]

/-- Whether the path ends on an attribute. -/
def isAttribute (info : PathInfo) : Bool := info.attributeName.isSome

/-- The steps to elements: all but the one to the attribute. -/
def steps (info : PathInfo) : List Step :=
  match info.attributeIndex with
  | none => info.locationSteps
  | some index => withoutIndex info.locationSteps index

/-- The last step to an element. -/
def lastStep (info : PathInfo) : Except PathError Step :=
  match info.steps.getLast? with
  | none => .error .noElementStep
  | some step => .ok step

/-- Whether a text occurs among the predicates of one of the steps to elements. -/
def hasPredicate (info : PathInfo) (part : Text) : Bool :=
  info.steps.any (·.predicateText.holds part)

/-- A path as records show it. -/
def summary (info : PathInfo) : Text :=
  Text.between '<' '>'
    ("PathInfo ".toList ++ ['/'].intercalate (info.locationSteps.map Step.toText))

end PathInfo

end LocationPath
