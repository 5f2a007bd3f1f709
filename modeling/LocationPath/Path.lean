import LocationPath.Decomposition

/-! # Computing with paths

New paths out of given ones. Paths are taken apart into steps, the steps are combined, and the
result is written down again; nothing is evaluated.

Main definitions: `Path.addAxis` (a path on an axis), `Path.join` (one path after another) and
`Path.contextualize` (a path as it is seen from the end of another). -/

namespace LocationPath

namespace Path

/-- The steps of the path that a text writes. -/
def steps (text : Text) : Except PathError (List Step) := do
  return (← PathInfo.parse text).locationSteps

/-- The texts of some steps between slashes, without their predicates. -/
def bare (steps : List Step) : Text := ['/'].intercalate (steps.map (·.text))

/-! ## Axes -/

/-- The path on an axis. Steps back at its start are dropped, since the axis says which way to go.
-/
def addAxis (axis path : Text) : Except PathError Text := do
  match (← steps path).dropWhile Step.isParent with
  | [] => .error (.nothingToQualify axis path)
  | steps => return axis ++ ':' :: ':' :: bare steps

/-! ## One path after another -/

/-- Whether a step back cannot be cancelled against a step. -/
def isBarrier (step : Step) : Bool := step.isDots || step.isVariable

/-- Cancels the steps back at the start of the second path against the steps of the first path,
which are given from the last one on. There is no result if a step back has nothing to go back from.
-/
def cancel (back : List Step) : List Step → Option (List Step × List Step)
  | [] => some (back, [])
  | step :: rest =>
    if step.isParent then
      match back with
      | [] => none
      -- Cancelling stops at a step that is no ordinary child, and the step back is kept.
      | last :: earlier => if isBarrier last then some (back, step :: rest) else cancel earlier rest
    else some (back, step :: rest)

/-- A second path without a step back at its start cancels nothing. -/
theorem cancel_of_not_isParent {step : Step} (h : step.isParent = false) (back rest : List Step) :
    cancel back (step :: rest) = some (back, step :: rest) := by
  rw [cancel.eq_def]
  simp [h]

/-- The second path after the first one. Steps back at the start of the second path cancel ordinary
steps at the end of the first one. Predicates are dropped. If one of the paths is blank, the other
one is the result as it is; if all steps cancel out, the result is a dot. -/
def join (first second : Text) : Except PathError Text := do
  if first.isBlank then return second
  if second.isBlank then return first
  let firstSteps ← steps first
  let secondSteps ← steps second
  -- Cancelling starts at the end of the first path.
  match cancel firstSteps.reverse secondSteps with
  | none => .error (.nothingToGoBackFrom first second)
  | some ([], []) => return ['.']
  | some (back, rest) => return bare (back.reverse ++ rest)

/-- Joins paths that may be missing; a missing path counts as blank. -/
def joinOptional : (first second : Option Text) → Except PathError (Option Text)
  | none, second => .ok second
  | some first, none => .ok (if first.isBlank then none else some first)
  | some first, some second => (join first second).map some

/-! ## Paths in a context -/

/-- Drops the steps at the start of a path that a context covers, and the steps that cover them. -/
def dropCovered : (context path : List Step) → List Step × List Step
  | covering :: context, step :: path =>
    if step.isCoveredBy covering then dropCovered context path
    else (covering :: context, step :: path)
  | context, path => (context, path)

/-- The predicates of a step that a context step lacks, in their brackets. -/
def addedPredicates (step context : Step) : Text :=
  (step.predicates.filter fun predicate => !context.predicates.contains predicate).flatMap
    (Text.between '[' ']')

/-- How a relative path starts, with the steps of the context to go back from and the steps that
follow. Where the path only adds predicates to a step of the context, these are put on a dot; or, if
there is a later step of the context to go back from, on the first step back. -/
def divergence : (context path : List Step) → Except PathError (Text × List Step × List Step)
  | last :: context, step :: path => do
    if ← step.narrows last then
      match context with
      -- There is nothing to go back from, so the predicates are checked on the spot.
      | [] => return ('.' :: addedPredicates step last, [], path)
      | _ :: context => return ('.' :: '.' :: addedPredicates step last, context, path)
    else return ([], last :: context, step :: path)
  | context, path => .ok ([], context, path)

/-- The text of a relative path: a step back for each step of the context, the start, and the steps
that follow it. -/
def relative (start : Text) (context path : List Step) : Text :=
  let onward := start ++ path.flatMap fun step => '/' :: step.toText
  let back := context.flatMap fun _ => ['.', '.', '/']
  -- The steps back bring a slash each, so none is needed in front, and one may be left at the end.
  let whole := Text.dropTrailing '/' (back ++ Text.dropLeading '/' onward)
  if whole.isEmpty then ['.'] else whole

/-- The path as it is seen from a node that the context selects. Steps that both have in common are
left out, with one step back for each step of the context that remains. An empty context leaves the
path as it is. -/
def contextualize (context path : Text) : Except PathError Text := do
  if context.isEmpty then return path
  let contextSteps ← steps context
  let pathSteps ← steps path
  let (contextSteps, pathSteps) := dropCovered contextSteps pathSteps
  let (start, contextSteps, pathSteps) ← divergence contextSteps pathSteps
  return relative start contextSteps pathSteps

/-- Contextualizes a path where the context or the path may be missing; a missing context counts as
empty, and a missing path stays missing. -/
def contextualizeOptional : (context path : Option Text) → Except PathError (Option Text)
  | none, path => .ok path
  | some _, none => .ok none
  | some context, some path => (contextualize context path).map some

end Path

end LocationPath
