import LocationPath.Proofs.Path.ContextualMeaning
import Mathlib.Data.List.Forall2

/-! # Paths with equivalent steps

A path in a context is found by comparing steps, and no comparison looks at the order of predicates.
So contexts with equivalent steps give the very same text. Of the path, the order of predicates is
kept: paths with equivalent steps give texts with equivalent steps.

Main definition: `Path.Equivalent`. Main results: `Path.contextualSteps_congr`,
`Path.Equivalent.contextualSteps` and `Path.contextualize_congr`. -/

namespace LocationPath

/-! ## Added predicates -/

/-- Which predicates are added to a context step does not depend on the order of its own. -/
theorem Step.added_congr {context context' : Step} (h : context.isEquivalent context' = true)
    (step : Step) : step.added context = step.added context' := by
  obtain ⟨-, perm⟩ := isEquivalent_iff.1 h
  refine List.filter_congr fun predicate _ => ?_
  rw [perm.contains_eq]

/-- Equivalent steps add the same predicates, also as often, in some order. -/
theorem Step.added_perm {step step' : Step} (h : step.isEquivalent step' = true) (context : Step) :
    (step.added context).Perm (step'.added context) :=
  (isEquivalent_iff.1 h).2.filter _

namespace Path

/-! ## Steps that are equivalent one by one -/

/-- As many steps, each equivalent to the one at the same place. -/
def Equivalent (path path' : List Step) : Prop :=
  List.Forall₂ (fun step step' => step.isEquivalent step' = true) path path'

variable {path path' context context' : List Step}

/-- All steps are equivalent to themselves. -/
theorem Equivalent.refl (path : List Step) : Equivalent path path := by
  induction path with
  | nil => exact .nil
  | cons step path ih => exact .cons step.isEquivalent_self ih

/-- The same steps may be put in front. -/
theorem Equivalent.append_left (front : List Step) (h : Equivalent path path') :
    Equivalent (front ++ path) (front ++ path') :=
  List.rel_append (Equivalent.refl front) h

/-- A dot is put in the place of no steps in both paths or in none. -/
theorem Equivalent.orStay (h : Equivalent path path') :
    Equivalent (orStay path) (LocationPath.orStay path') := by
  cases h with
  | nil => exact .refl _
  | cons first rest => exact .cons first rest

/-! ## Paths in a context -/

/-- **Contexts with equivalent steps leave the same steps of a path.** -/
theorem contextualSteps_congr (h : Equivalent context context') (path : List Step) :
    contextualSteps context path = contextualSteps context' path := by
  induction context, path using contextual_induction generalizing context' with
  | no_context path => rw [List.forall₂_nil_left_iff.1 h]
  | no_path last context =>
    rw [contextualSteps_nil_right, contextualSteps_nil_right, h.length_eq]
  | covered covering context step path covered ih =>
    obtain ⟨last', context', equivalent, rest, rfl⟩ := List.forall₂_cons_left_iff.1 h
    have covered_eq := Step.isCoveredBy_congr step.isEquivalent_self equivalent
    rw [contextualSteps_of_isCoveredBy covered,
      contextualSteps_of_isCoveredBy (covered_eq.symm.trans covered), ih rest]
  | narrows last context step path uncovered narrows =>
    obtain ⟨last', context', equivalent, rest, rfl⟩ := List.forall₂_cons_left_iff.1 h
    have covered_eq := Step.isCoveredBy_congr step.isEquivalent_self equivalent
    have narrows_eq := Step.narrows_congr step.isEquivalent_self equivalent
    rw [contextualSteps_of_narrows uncovered narrows,
      contextualSteps_of_narrows (covered_eq.symm.trans uncovered) (narrows_eq.symm.trans narrows),
      Step.added_congr equivalent]
    -- The context goes on in both cases or in none.
    cases rest with
    | nil => rfl
    | cons _ further =>
      dsimp only
      rw [further.length_eq]
  | leaves last context step path uncovered narrows =>
    obtain ⟨last', context', equivalent, rest, rfl⟩ := List.forall₂_cons_left_iff.1 h
    have covered_eq := Step.isCoveredBy_congr step.isEquivalent_self equivalent
    have narrows_eq := Step.narrows_congr step.isEquivalent_self equivalent
    rw [contextualSteps_of_not_narrows uncovered narrows,
      contextualSteps_of_not_narrows (covered_eq.symm.trans uncovered) (narrows_eq ▸ narrows),
      rest.length_eq]

/-- **Paths with equivalent steps have equivalent steps in a context.** -/
theorem Equivalent.contextualSteps (h : Equivalent path path') (context : List Step) :
    Equivalent (contextualSteps context path) (Path.contextualSteps context path') := by
  induction context, path using contextual_induction generalizing path' with
  | no_context path =>
    rw [contextualSteps_nil_left, contextualSteps_nil_left]
    exact h.orStay
  | no_path last context =>
    rw [List.forall₂_nil_left_iff.1 h]
    exact .refl _
  | covered covering context step path covered ih =>
    obtain ⟨step', path', first, rest, rfl⟩ := List.forall₂_cons_left_iff.1 h
    have covered_eq := Step.isCoveredBy_congr first covering.isEquivalent_self
    rw [contextualSteps_of_isCoveredBy covered,
      contextualSteps_of_isCoveredBy (covered_eq.symm.trans covered)]
    exact ih rest
  | narrows last context step path uncovered narrows =>
    obtain ⟨step', path', first, rest, rfl⟩ := List.forall₂_cons_left_iff.1 h
    have covered_eq := Step.isCoveredBy_congr first last.isEquivalent_self
    have narrows_eq := Step.narrows_congr first last.isEquivalent_self
    -- Equivalent steps give the same answers, and add the same predicates up to their order.
    have added := Step.added_perm first last
    rw [contextualSteps_of_narrows uncovered narrows,
      contextualSteps_of_narrows (covered_eq.symm.trans uncovered) (narrows_eq.symm.trans narrows)]
    cases context with
    | nil => exact .cons (Step.isEquivalent_iff.2 ⟨rfl, added⟩) rest
    | cons next context =>
      exact .append_left _ (.cons (Step.isEquivalent_iff.2 ⟨rfl, added⟩) rest)
  | leaves last context step path uncovered narrows =>
    obtain ⟨step', path', first, rest, rfl⟩ := List.forall₂_cons_left_iff.1 h
    have covered_eq := Step.isCoveredBy_congr first last.isEquivalent_self
    have narrows_eq := Step.narrows_congr first last.isEquivalent_self
    rw [contextualSteps_of_not_narrows uncovered narrows,
      contextualSteps_of_not_narrows (covered_eq.symm.trans uncovered) (narrows_eq ▸ narrows)]
    exact .append_left _ (.cons first rest)

/-- **Putting a path in a context respects the equivalence of steps.** An accepted context may be
replaced by one with equivalent steps without any change to the result, and an accepted path by one
with equivalent steps so that the steps of the result are equivalent. -/
theorem contextualize_congr {context context' path path' : Text}
    {contextSteps contextSteps' pathSteps pathSteps' : List Step}
    (context_eq : steps context = .ok contextSteps)
    (context_eq' : steps context' = .ok contextSteps') (path_eq : steps path = .ok pathSteps)
    (path_eq' : steps path' = .ok pathSteps') (no_ogham : oghamSpace ∉ path)
    (no_ogham' : oghamSpace ∉ path') (contexts : Equivalent contextSteps contextSteps')
    (paths : Equivalent pathSteps pathSteps') :
    ∃ result result' resultSteps resultSteps',
      contextualize context path = .ok result ∧ contextualize context' path = .ok result ∧
        contextualize context path' = .ok result' ∧ steps result = .ok resultSteps ∧
        steps result' = .ok resultSteps' ∧ Equivalent resultSteps resultSteps' := by
  have readable := readable_of_steps path_eq no_ogham
  have readable' := readable_of_steps path_eq' no_ogham'
  have ne := ne_nil_of_steps context_eq
  obtain ⟨result, computed, result_eq⟩ := exists_contextualize context_eq path_eq ne readable
  obtain ⟨result', computed', result_eq'⟩ := exists_contextualize context_eq path_eq' ne readable'
  have other := contextualize_eq context_eq' path_eq (ne_nil_of_steps context_eq') readable
  rw [← contextualSteps_congr contexts, ← contextualize_eq context_eq path_eq ne readable,
    computed] at other
  exact ⟨result, result', _, _, computed, other, computed', result_eq, result_eq',
    paths.contextualSteps contextSteps⟩

/-- Predicates in another order leave the context alike and come out in their own order, a repeated
one as often as before. -/
theorem contextualize_congr_of_reordered : ∃ result result' resultSteps resultSteps',
    contextualize "/a[p][q]/b[p]/c".toList "/a[q][p]/b[q][p][r][q]/d".toList = .ok result ∧
      contextualize "a[q][p]/b[p]//c".toList "/a[q][p]/b[q][p][r][q]/d".toList = .ok result ∧
      contextualize "/a[p][q]/b[p]/c".toList "a[p][q]/b[r][q][q][p]/d".toList = .ok result' ∧
      result = "..[q][r][q]/d".toList ∧ result' = "..[r][q][q]/d".toList ∧
      steps result = .ok resultSteps ∧ steps result' = .ok resultSteps' ∧
      Equivalent resultSteps resultSteps' := by
  let a (predicates : List Text) : Step := ⟨"a".toList, predicates, by decide +kernel, by decide⟩
  let b (predicates : List Text) : Step := ⟨"b".toList, predicates, by decide +kernel, by decide⟩
  let c : Step := ⟨"c".toList, [], by decide +kernel, by decide⟩
  let d : Step := ⟨"d".toList, [], by decide +kernel, by decide⟩
  have context_eq : steps "/a[p][q]/b[p]/c".toList = .ok [a [['p'], ['q']], b [['p']], c] := by
    decide +kernel
  have context_eq' : steps "a[q][p]/b[p]//c".toList = .ok [a [['q'], ['p']], b [['p']], c] := by
    decide +kernel
  have path_eq : steps "/a[q][p]/b[q][p][r][q]/d".toList =
      .ok [a [['q'], ['p']], b [['q'], ['p'], ['r'], ['q']], d] := by decide +kernel
  have path_eq' : steps "a[p][q]/b[r][q][q][p]/d".toList =
      .ok [a [['p'], ['q']], b [['r'], ['q'], ['q'], ['p']], d] := by decide +kernel
  obtain ⟨result, result', resultSteps, resultSteps', computed, other, computed', result_eq,
    result_eq', equivalent⟩ := contextualize_congr context_eq context_eq' path_eq path_eq'
      (by decide +kernel) (by decide +kernel)
      (.cons (by decide) (.cons (by decide) (.cons (by decide) .nil)))
      (.cons (by decide) (.cons (by decide) (.cons (by decide) .nil)))
  have text_eq : contextualize "/a[p][q]/b[p]/c".toList "/a[q][p]/b[q][p][r][q]/d".toList =
      .ok "..[q][r][q]/d".toList := by decide +kernel
  have text_eq' : contextualize "/a[p][q]/b[p]/c".toList "a[p][q]/b[r][q][q][p]/d".toList =
      .ok "..[r][q][q]/d".toList := by decide +kernel
  exact ⟨result, result', resultSteps, resultSteps', computed, other, computed',
    Except.ok.inj (computed.symm.trans text_eq), Except.ok.inj (computed'.symm.trans text_eq'),
    result_eq, result_eq', equivalent⟩

end Path

end LocationPath
