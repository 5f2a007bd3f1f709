import LocationPath.Step
import Mathlib.Data.List.Perm.Subperm

/-! # Steps that cover others, and steps that are narrower

Two steps with the same text are compared by their predicates. Between different numbers of
predicates only membership counts, but between equal ones every repetition does, so that covering is
no order of all steps. On steps without repetitions both comparisons come down to inclusion: a step
covers the steps with a part of its predicates, and narrows those with a proper part of them.

Main definition: `Step.Extends`. Main results: `Step.isCoveredBy_congr` and `Step.narrows_congr` (the
order of predicates does not matter) and `Step.inclusion`. -/

namespace LocationPath

namespace Step

variable {step step' context context' : Step}

/-! ## What the comparisons ask -/

/-- A step is covered by another one with the same text that has all of its predicates and, if there
are as many of them, has these in some order. -/
theorem isCoveredBy_iff : step.isCoveredBy context = true ↔
    step.text = context.text ∧ step.predicates ⊆ context.predicates ∧
      (step.predicates.length = context.predicates.length →
        step.predicates.Perm context.predicates) := by
  rw [isCoveredBy, Bool.and_eq_true, beq_iff_eq]
  refine and_congr_right fun _ => ?_
  split
  · rename_i length_eq
    rw [samePredicates_iff length_eq]
    exact ⟨fun perm => ⟨perm.subset, fun _ => perm⟩, fun h => h.2 length_eq⟩
  · rename_i length_ne
    rw [List.all_eq_true]
    exact ⟨fun all => ⟨fun _ mem => List.contains_iff_mem.1 (all _ mem), fun eq => absurd eq length_ne⟩,
      fun h predicate mem => List.contains_iff_mem.2 (h.1 mem)⟩

/-- A covered step has the text of the step that covers it, and no predicate that this one lacks. -/
theorem of_isCoveredBy (h : step.isCoveredBy context = true) :
    step.text = context.text ∧ step.predicates ⊆ context.predicates :=
  ⟨(isCoveredBy_iff.1 h).1, (isCoveredBy_iff.1 h).2.1⟩

/-- A step **extends** another one if it has the same text and all predicates of it, in a different
number. -/
structure Extends (step context : Step) : Prop where
  /-- The texts are the same. -/
  text_eq : step.text = context.text
  /-- The numbers of predicates differ. -/
  length_ne : step.predicates.length ≠ context.predicates.length
  /-- No predicate is missing. -/
  subset : context.predicates ⊆ step.predicates

/-- A step is narrower than those that it extends, and than no others. -/
theorem narrows_eq_ok_true_iff : step.narrows context = .ok true ↔ step.Extends context := by
  constructor
  · intro narrower
    unfold narrows at narrower
    split at narrower
    · simp at narrower
    · rename_i text_eq
      split at narrower
      · rename_i length_ne
        refine ⟨not_not.1 text_eq, length_ne, fun predicate mem => ?_⟩
        have all := Except.ok.inj narrower
        exact List.contains_iff_mem.1 (List.all_eq_true.1 all predicate mem)
      · split at narrower <;> simp at narrower
  · rintro ⟨text_eq, length_ne, subset⟩
    rw [narrows, if_neg (not_not.2 text_eq), if_pos length_ne, List.all_eq_true.2]
    intro predicate mem
    exact List.contains_iff_mem.2 (subset mem)

/-! ## Equivalent steps -/

/-- Equivalent steps are covered by equivalent steps alike. -/
theorem isCoveredBy_congr (h : step.isEquivalent step' = true)
    (h' : context.isEquivalent context' = true) :
    step.isCoveredBy context = step'.isCoveredBy context' := by
  obtain ⟨text_eq, perm⟩ := isEquivalent_iff.1 h
  obtain ⟨text_eq', perm'⟩ := isEquivalent_iff.1 h'
  rw [Bool.eq_iff_iff, isCoveredBy_iff, isCoveredBy_iff, text_eq, text_eq', perm.length_eq,
    perm'.length_eq, perm.subset_congr_left, perm'.subset_congr_right, perm.congr_left,
    perm'.congr_right]

/-- Equivalent steps are narrower than equivalent steps alike. -/
theorem narrows_congr (h : step.isEquivalent step' = true)
    (h' : context.isEquivalent context' = true) :
    step.narrows context = step'.narrows context' := by
  obtain ⟨text_eq, perm⟩ := isEquivalent_iff.1 h
  obtain ⟨text_eq', perm'⟩ := isEquivalent_iff.1 h'
  have all_eq : context.predicates.all step.predicates.contains =
      context'.predicates.all step'.predicates.contains := by
    rw [Bool.eq_iff_iff, List.all_eq_true, List.all_eq_true]
    simp only [List.contains_iff_mem, perm.mem_iff, perm'.mem_iff]
  simp only [narrows, isCoveredBy_congr h h', all_eq, text_eq, text_eq', perm.length_eq,
    perm'.length_eq]

/-! ## Steps without repeated predicates -/

/-- A list without repetitions whose elements are all in another list of the same length is a
permutation of it. -/
private theorem perm_of_subset {texts texts' : List Text} (nodup : texts.Nodup)
    (subset : texts ⊆ texts') (length_eq : texts.length = texts'.length) : texts.Perm texts' :=
  (nodup.subperm subset).perm_of_length_le (Nat.le_of_eq length_eq.symm)

/-- A step that repeats no predicate is covered exactly by the steps with the same text and all of
its predicates. -/
theorem isCoveredBy_iff_subset (nodup : step.predicates.Nodup) :
    step.isCoveredBy context = true ↔
      step.text = context.text ∧ step.predicates ⊆ context.predicates := by
  refine ⟨of_isCoveredBy, fun ⟨text_eq, subset⟩ => ?_⟩
  exact isCoveredBy_iff.2 ⟨text_eq, subset, perm_of_subset nodup subset⟩

/-- A step extends one that repeats no predicate and does not cover it exactly if it has more
predicates than this one. -/
theorem extends_iff_ssubset (nodup : context.predicates.Nodup)
    (uncovered : step.isCoveredBy context = false) :
    step.Extends context ↔ step.text = context.text ∧
      context.predicates ⊆ step.predicates ∧ ¬ step.predicates ⊆ context.predicates := by
  constructor
  · rintro ⟨text_eq, length_ne, subset⟩
    refine ⟨text_eq, subset, fun subset' => ?_⟩
    have covered : step.isCoveredBy context = true :=
      isCoveredBy_iff.2 ⟨text_eq, subset', fun eq => absurd eq length_ne⟩
    rw [covered] at uncovered
    contradiction
  · rintro ⟨text_eq, subset, not_subset⟩
    refine ⟨text_eq, fun length_eq => not_subset ?_, subset⟩
    exact (perm_of_subset nodup subset length_eq.symm).symm.subset

/-- **On steps that repeat no predicate the two comparisons are inclusion.** A step is covered by the
steps with the same text and all of its predicates; where it is not covered, it can be asked whether
it is narrower, and it is if its predicates are properly more. So to be covered is a preorder, and
steps that cover each other are equivalent. -/
theorem inclusion {a b : Step} (a_nodup : a.predicates.Nodup) (b_nodup : b.predicates.Nodup) :
    (a.isCoveredBy b = true ↔ a.text = b.text ∧ a.predicates ⊆ b.predicates) ∧
    (a.isCoveredBy b = false → ∃ answer, a.narrows b = .ok answer ∧
      (answer = true ↔ a.text = b.text ∧ b.predicates ⊆ a.predicates ∧
        ¬ a.predicates ⊆ b.predicates)) ∧
    a.isCoveredBy a = true ∧
    (∀ c, a.isCoveredBy b = true → b.isCoveredBy c = true → a.isCoveredBy c = true) ∧
    (a.isCoveredBy b = true ∧ b.isCoveredBy a = true ↔ a.isEquivalent b = true) := by
  refine ⟨isCoveredBy_iff_subset a_nodup, fun uncovered => ?_, isCoveredBy_self a, ?_, ?_⟩
  · rw [← extends_iff_ssubset b_nodup uncovered, ← narrows_eq_ok_true_iff]
    cases narrows : a.narrows b with
    | error error => exact absurd narrows (narrows_ne_error uncovered error)
    | ok answer => exact ⟨answer, rfl, by simp⟩
  · intro c ab bc
    obtain ⟨text_eq, subset⟩ := of_isCoveredBy ab
    obtain ⟨text_eq', subset'⟩ := of_isCoveredBy bc
    exact (isCoveredBy_iff_subset a_nodup).2
      ⟨text_eq.trans text_eq', List.Subset.trans subset subset'⟩
  · rw [isCoveredBy_iff_subset a_nodup, isCoveredBy_iff_subset b_nodup, isEquivalent_iff]
    constructor
    · -- Without repetitions, inclusion both ways leaves the same predicates in some order.
      rintro ⟨⟨text_eq, subset⟩, -, subset'⟩
      exact ⟨text_eq, (a_nodup.subperm subset).antisymm (b_nodup.subperm subset')⟩
    · rintro ⟨text_eq, perm⟩
      exact ⟨⟨text_eq, perm.subset⟩, text_eq.symm, perm.symm.subset⟩

/-- A predicate that is added makes a step narrower, whatever the order of the others. -/
theorem inclusion_of_reordered : ∃ few many other : Step,
    few.toText = "x[p]".toList ∧ many.toText = "x[q][p]".toList ∧ other.toText = "x[p][q]".toList ∧
      few.predicates.Nodup ∧ many.predicates.Nodup ∧ few.isCoveredBy many = true ∧
      many.isCoveredBy other = true ∧ few.isCoveredBy other = true ∧
      many.isCoveredBy few = false ∧ many.narrows few = .ok true := by
  let few : Step := ⟨"x".toList, ["p".toList], by decide +kernel, by decide⟩
  let many : Step := ⟨"x".toList, ["q".toList, "p".toList], by decide +kernel, by decide⟩
  let other : Step := ⟨"x".toList, ["p".toList, "q".toList], by decide +kernel, by decide⟩
  have few_nodup : few.predicates.Nodup := by decide
  have many_nodup : many.predicates.Nodup := by decide
  obtain ⟨covered_iff, -, -, trans, -⟩ := inclusion few_nodup many_nodup
  obtain ⟨-, narrower, -⟩ := inclusion many_nodup few_nodup
  have covered : few.isCoveredBy many = true := covered_iff.2 ⟨rfl, by decide⟩
  have covered' : many.isCoveredBy other = true := by decide
  have uncovered : many.isCoveredBy few = false := by decide
  obtain ⟨answer, narrows, answer_iff⟩ := narrower uncovered
  obtain rfl : answer = true := answer_iff.2 ⟨rfl, by decide, by decide⟩
  exact ⟨few, many, other, rfl, rfl, rfl, few_nodup, many_nodup, covered, covered',
    trans other covered covered', uncovered, narrows⟩

/-- Where predicates are repeated, to be covered is not transitive. -/
example : ∃ a b c : Step, a.toText = "x[p][p][p]".toList ∧ b.toText = "x[p][q]".toList ∧
    c.toText = "x[p][q][r]".toList ∧ a.isCoveredBy b = true ∧ b.isCoveredBy c = true ∧
      a.isCoveredBy c = false :=
  ⟨⟨"x".toList, ["p".toList, "p".toList, "p".toList], by decide +kernel, by decide⟩,
    ⟨"x".toList, ["p".toList, "q".toList], by decide +kernel, by decide⟩,
    ⟨"x".toList, ["p".toList, "q".toList, "r".toList], by decide +kernel, by decide⟩,
    rfl, rfl, rfl, by decide, by decide, by decide⟩

end Step

end LocationPath
