import LocationPath.Error
import LocationPath.Text.Sorted

/-! # Steps

One step of a path: the text of its node test, abbreviation or primary expression, and the texts of
its predicates in the order of the path. Steps are compared in three ways: as equal up to the order
of their predicates, by an order for sorting, and by the predicates that one has and the other
lacks.

Main definitions: `Step`, `Step.of?`, `Step.isEquivalent`, `Step.key`, `Step.precedes`,
`Step.isCoveredBy` and `Step.narrows`. -/

namespace LocationPath

/-- A step of a path. -/
structure Step where
  /-- The step without its predicates. -/
  text : Text
  /-- The predicates without their brackets. -/
  predicates : List Text
  /-- No white space surrounds the text. -/
  trim_text : text.trim = text
  /-- A step has a text. -/
  text_ne_nil : text ≠ []
  deriving DecidableEq

namespace Step

/-- The step with a text, of which the surrounding white space is removed. The text must not be
blank. -/
def of? (text : Text) (predicates : List Text) : Except PathError Step :=
  if h : text.trim = [] then .error .blankStep
  else .ok ⟨text.trim, predicates, Text.trim_trim text, h⟩

/-- A step is made of its own text, with which white space may stand around it, and its own
predicates. -/
theorem of?_eq_ok_iff {text : Text} {predicates : List Text} {step : Step} :
    of? text predicates = .ok step ↔ text.trim = step.text ∧ predicates = step.predicates := by
  cases step with
  | mk own ownPredicates trim_text text_ne_nil =>
    unfold of?
    split
    · rename_i blank
      simp [blank, Ne.symm text_ne_nil]
    · simp

/-- A step is made unless its text is blank. -/
theorem of?_eq_error_iff {text : Text} {predicates : List Text} {error : PathError} :
    of? text predicates = .error error ↔ text.trim = [] ∧ error = .blankStep := by
  unfold of?
  split
  · rename_i h
    simp only [Except.error.injEq, h, true_and]
    exact eq_comm
  · rename_i h
    simp [h]

/-- The predicates of a step in their brackets. -/
def predicateText (step : Step) : Text := step.predicates.flatMap (Text.between '[' ']')

/-- The whole text of a step. -/
def toText (step : Step) : Text := step.text ++ step.predicateText

/-- A step as records show it. -/
def summary (step : Step) : Text := Text.between '<' '>' ("Step ".toList ++ step.toText)

/-- Whether a step stays where it is. -/
def isSelf (step : Step) : Bool := step.text == ['.']

/-- Whether a step goes back to the parent. -/
def isParent (step : Step) : Bool := step.text == ['.', '.']

/-- Whether a step is one dot or two. -/
def isDots (step : Step) : Bool := step.isSelf || step.isParent

/-- Whether a step is a reference to a variable. -/
def isVariable (step : Step) : Bool := step.text.head? == some '$'

/-! ## Equality -/

/-- Whether two lists hold the same predicates in any order, asked of lists of the same length. Only
two predicates or more need to be sorted. -/
def samePredicates : List Text → List Text → Bool
  | [], _ => true
  | [predicate], others => others.head? == some predicate
  | predicates, others => Text.sorted predicates == Text.sorted others

/-- Lists of the same length hold the same predicates if they are a permutation of each other. -/
theorem samePredicates_iff {predicates others : List Text}
    (length_eq : predicates.length = others.length) :
    samePredicates predicates others = true ↔ predicates.Perm others := by
  unfold samePredicates
  split
  · rw [List.eq_nil_of_length_eq_zero length_eq.symm]
    simp
  · obtain ⟨other, rfl⟩ := List.length_eq_one_iff.1 length_eq.symm
    rw [List.head?_cons, beq_iff_eq, Option.some.injEq, List.singleton_perm_singleton]
    exact eq_comm
  · rw [beq_iff_eq, Text.sorted_eq_iff_perm]

/-- Whether two steps have the same text and, in any order, the same predicates. -/
def isEquivalent (a b : Step) : Bool :=
  a.text == b.text && a.predicates.length == b.predicates.length &&
    samePredicates a.predicates b.predicates

/-- Steps are equivalent when their texts are the same and their predicates are a permutation of
each other. -/
theorem isEquivalent_iff {a b : Step} :
    a.isEquivalent b = true ↔ a.text = b.text ∧ a.predicates.Perm b.predicates := by
  simp only [isEquivalent, Bool.and_eq_true, beq_iff_eq, and_assoc]
  refine and_congr_right fun _ => ?_
  constructor
  · rintro ⟨length_eq, same⟩
    exact (samePredicates_iff length_eq).1 same
  · intro perm
    exact ⟨perm.length_eq, (samePredicates_iff perm.length_eq).2 perm⟩

/-- Every step is equivalent to itself. -/
@[simp] theorem isEquivalent_self (a : Step) : a.isEquivalent a = true := by
  simp [isEquivalent_iff]

/-- What equivalent steps have in common: the text, and the predicates in ascending order. -/
def key (step : Step) : Text × List Text := (step.text, Text.sorted step.predicates)

/-- The first of each group of equivalent steps, in the order of the list. -/
def distinct : List Step → List Step
  | [] => []
  | step :: rest => step :: (distinct rest).filter (!step.isEquivalent ·)

/-! ## Order -/

/-- Whether a step goes before another one in a sorted list: by text, and by the text of the
predicates where the texts are the same. -/
def precedes (a b : Step) : Bool :=
  a.text < b.text || a.text == b.text && a.predicateText < b.predicateText

/-- Whether a step goes before another one or is equivalent to it. -/
def isAtMost (a b : Step) : Bool := a.precedes b || a.isEquivalent b

/-- Whether a step neither goes before another one nor is equivalent to it. -/
def follows (a b : Step) : Bool := !a.precedes b && !a.isEquivalent b

/-- Whether a step does not go before another one. -/
def isAtLeast (a b : Step) : Bool := !a.precedes b

/-- The steps in order; of two that neither goes before the other the first one stays first. -/
def sorted (steps : List Step) : List Step := steps.mergeSort fun a b => !b.precedes a

/-! ## Inclusion -/

/-- Whether a step can be left out of a path in the context of another step: both have the same
text, and either the same predicates in any order or, if their numbers differ, the first one has no
predicate that the second one lacks. -/
def isCoveredBy (step context : Step) : Bool :=
  step.text == context.text &&
    if step.predicates.length = context.predicates.length then
      samePredicates step.predicates context.predicates
    else step.predicates.all context.predicates.contains

/-- Every step is covered by itself. -/
@[simp] theorem isCoveredBy_self (step : Step) : step.isCoveredBy step = true := by
  simp [isCoveredBy, samePredicates_iff]

/-- Whether a step selects fewer nodes than another one: both have the same text, their numbers of
predicates differ, and the first one has all predicates of the second one. The question must not be
asked of a step that the other one covers with as many predicates. -/
def narrows (step context : Step) : Except PathError Bool :=
  if step.text ≠ context.text then .ok false
  else if step.predicates.length ≠ context.predicates.length then
    .ok (context.predicates.all step.predicates.contains)
  -- With as many predicates the first step can only be the same as the other one, or no narrower.
  else if step.isCoveredBy context then .error .sameStep
  else .ok false

/-- The question whether a step is narrower can be answered if the other one does not cover it. -/
theorem narrows_ne_error {step context : Step} (h : step.isCoveredBy context = false)
    (error : PathError) : step.narrows context ≠ .error error := by
  unfold narrows
  split
  · simp
  · split
    · simp
    · simp [h]

end Step

end LocationPath
