import LocationPath.Proofs.Path.ContextualMeaning

/-! # Where a path leaves its context

The steps of a path in a context are given by one number, that of the steps at the start which the
context covers one by one. Behind these there are three cases. A step that extends that of the
context leaves its added predicates on a dot or, if the context goes on, on the last step back. Any
other step of the path is kept, as are those behind it, after one step back for each step left of the
context. And if nothing at all is left, there is a dot.

Main definitions: `Path.CommonFront` and `Path.LeavesAt`. Main results: `Path.commonFront_iff` (the
number is unique), `Path.leavesAt_contextualSteps` and `Path.contextualize_leaves`. -/

namespace LocationPath

/-- A step that extends another one and is not covered by it has a predicate of its own, even if it
repeats some of them. -/
theorem Step.Extends.added_ne_nil {step context : Step} (h : step.Extends context)
    (uncovered : step.isCoveredBy context = false) : step.added context ≠ [] := by
  intro none_added
  have all : step.predicates.all context.predicates.contains = true := by
    rw [List.all_eq_true]
    intro predicate mem
    simpa using List.filter_eq_nil_iff.1 none_added predicate mem
  have covered : step.isCoveredBy context = true := by
    rw [isCoveredBy, h.text_eq, if_neg h.length_ne, all, beq_self_eq_true, Bool.and_true]
  rw [covered] at uncovered
  contradiction

namespace Path

variable {context path : List Step}

/-! ## The steps in common -/

/-- As many steps at the start of a path are covered by those of a context, one by one, and no
more. -/
structure CommonFront (context path : List Step) (count : Nat) : Prop where
  /-- So many steps are covered. -/
  covered : ∀ index < count, ∃ covering step, context[index]? = some covering ∧
    path[index]? = some step ∧ step.isCoveredBy covering = true
  /-- The next step is not covered, if there is one. -/
  uncovered : ∀ last step, context[count]? = some last → path[count]? = some step →
    step.isCoveredBy last = false

/-- **There is one such number.** -/
theorem commonFront_iff {count : Nat} :
    CommonFront context path count ↔ count = coveredLength context path := by
  constructor
  · rintro ⟨covered, uncovered⟩
    rcases Nat.lt_trichotomy count (coveredLength context path) with lt | eq | gt
    · obtain ⟨covering, step, context_eq, path_eq, is_covered⟩ := isCoveredBy_of_lt_coveredLength lt
      rw [uncovered covering step context_eq path_eq] at is_covered
      contradiction
    · exact eq
    · obtain ⟨covering, step, context_eq, path_eq, is_covered⟩ := covered _ gt
      rw [not_isCoveredBy_coveredLength context_eq path_eq] at is_covered
      contradiction
  · rintro rfl
    exact ⟨fun index lt => isCoveredBy_of_lt_coveredLength lt,
      fun last step context_eq path_eq => not_isCoveredBy_coveredLength context_eq path_eq⟩

/-- The contextual steps are those of what is left behind the covered steps. -/
theorem contextualSteps_drop (context path : List Step) :
    contextualSteps (context.drop (coveredLength context path))
      (path.drop (coveredLength context path)) = contextualSteps context path := by
  fun_induction coveredLength context path with
  | case1 covering context step path covered ih =>
    rw [List.drop_succ_cons, List.drop_succ_cons, ih, contextualSteps_of_isCoveredBy covered]
  | case2 | case3 => rfl

/-- A list goes on from an index with the element there, if it has one. -/
private theorem drop_eq_cons {list : List Step} {index : Nat} {step : Step}
    (h : list[index]? = some step) : list.drop index = step :: list.drop (index + 1) := by
  obtain ⟨lt, rfl⟩ := List.getElem?_eq_some_iff.1 h
  exact List.drop_eq_getElem_cons lt

/-! ## What follows them -/

/-- Steps are those of a path in a context of which as many steps at the start are covered. -/
structure LeavesAt (context path : List Step) (count : Nat) (found : List Step) : Prop where
  /-- Added predicates stay on a dot if the context ends there. -/
  stays : ∀ last step, context[count]? = some last → path[count]? = some step → step.Extends last →
    context.length = count + 1 → found = .stay (step.added last) :: path.drop (count + 1)
  /-- Added predicates are put on the last step back if the context goes on. -/
  backs : ∀ last step, context[count]? = some last → path[count]? = some step → step.Extends last →
    count + 1 < context.length → found = List.replicate (context.length - count - 2) (.back []) ++
      .back (step.added last) :: path.drop (count + 1)
  /-- In all other cases the path is taken from where it leaves the context. -/
  leaves : (¬∃ last step, context[count]? = some last ∧ path[count]? = some step ∧
    step.Extends last) →
      found = orStay (List.replicate (context.length - count) (.back []) ++ path.drop count)

/-- Where a step extends that of the context, its added predicates are all that is left of it. -/
theorem contextualSteps_of_extends {last step : Step}
    (context_eq : context[coveredLength context path]? = some last)
    (path_eq : path[coveredLength context path]? = some step) (extends_last : step.Extends last) :
    contextualSteps context path = match context.drop (coveredLength context path + 1) with
      | [] => .stay (step.added last) :: path.drop (coveredLength context path + 1)
      | _ :: further => List.replicate further.length (.back []) ++
        .back (step.added last) :: path.drop (coveredLength context path + 1) := by
  have uncovered := not_isCoveredBy_coveredLength context_eq path_eq
  have narrows := Step.narrows_eq_ok_true_iff.2 extends_last
  rw [← contextualSteps_drop, drop_eq_cons context_eq, drop_eq_cons path_eq]
  refine (contextualSteps_of_narrows uncovered narrows).trans ?_
  cases context.drop (coveredLength context path + 1) with
  | nil => rfl
  | cons next further => rfl

/-- Elsewhere the path is taken from behind the covered steps, with a step back for each step left of
the context. -/
theorem contextualSteps_of_not_extends (no_extension : ¬∃ last step,
    context[coveredLength context path]? = some last ∧
      path[coveredLength context path]? = some step ∧ step.Extends last) :
    contextualSteps context path =
      orStay (List.replicate (context.length - coveredLength context path) (.back []) ++
        path.drop (coveredLength context path)) := by
  have length := List.length_drop (l := context) (i := coveredLength context path)
  rw [← contextualSteps_drop, ← length]
  cases context_eq : context.drop (coveredLength context path) with
  | nil => exact contextualSteps_nil_left _
  | cons last further =>
    cases path_eq : path.drop (coveredLength context path) with
    | nil => rw [contextualSteps_nil_right, List.append_nil]
    | cons step onward =>
      have last_eq : context[coveredLength context path]? = some last := by
        rw [← List.head?_drop, context_eq, List.head?_cons]
      have step_eq : path[coveredLength context path]? = some step := by
        rw [← List.head?_drop, path_eq, List.head?_cons]
      -- Neither covered nor narrower, so the path goes its own way from here on.
      have narrows : step.narrows last ≠ .ok true := fun narrows =>
        no_extension ⟨last, step, last_eq, step_eq, Step.narrows_eq_ok_true_iff.1 narrows⟩
      rw [contextualSteps_of_not_narrows (not_isCoveredBy_coveredLength last_eq step_eq) narrows,
        orStay_eq_self (by simp), List.length_cons]

/-- **The contextual steps leave the context behind the covered steps.** -/
theorem leavesAt_contextualSteps (context path : List Step) :
    LeavesAt context path (coveredLength context path) (contextualSteps context path) := by
  refine ⟨?_, ?_, contextualSteps_of_not_extends⟩
  · intro last step context_eq path_eq extends_last length
    have ends : context.drop (coveredLength context path + 1) = [] :=
      List.drop_eq_nil_of_le (Nat.le_of_eq length)
    rw [contextualSteps_of_extends context_eq path_eq extends_last, ends]
  · intro last step context_eq path_eq extends_last lt
    have goes_on := List.drop_eq_getElem_cons lt
    have further : (context.drop (coveredLength context path + 1 + 1)).length =
        context.length - coveredLength context path - 2 := by
      rw [List.length_drop]
      omega
    rw [contextualSteps_of_extends context_eq path_eq extends_last, goes_on, ← further]

/-- **A path in a context leaves it where the context no longer covers it.** For any two accepted
texts there is a number of steps that the context covers; the next step can be asked whether it is
narrower; there is a result; and it has the steps that this number gives, where a step that extends
that of the context always adds some predicate. -/
theorem contextualize_leaves {context path : Text} {contextSteps pathSteps : List Step}
    (context_eq : steps context = .ok contextSteps) (path_eq : steps path = .ok pathSteps)
    (path_no_ogham : oghamSpace ∉ path) : ∃ count result resultSteps,
      CommonFront contextSteps pathSteps count ∧
      (∀ last step, contextSteps[count]? = some last → pathSteps[count]? = some step →
        (∃ answer, step.narrows last = .ok answer) ∧
          (step.Extends last → step.added last ≠ [])) ∧
      contextualize context path = .ok result ∧ steps result = .ok resultSteps ∧
      LeavesAt contextSteps pathSteps count resultSteps := by
  have readable := readable_of_steps path_eq path_no_ogham
  obtain ⟨result, computed, result_eq⟩ :=
    exists_contextualize context_eq path_eq (ne_nil_of_steps context_eq) readable
  refine ⟨_, result, _, commonFront_iff.2 rfl, ?_, computed, result_eq,
    leavesAt_contextualSteps contextSteps pathSteps⟩
  intro last step last_eq step_eq
  have uncovered := not_isCoveredBy_coveredLength last_eq step_eq
  refine ⟨?_, fun extends_last => extends_last.added_ne_nil uncovered⟩
  cases answered : step.narrows last with
  | ok answer => exact ⟨answer, rfl⟩
  | error error => exact absurd answered (Step.narrows_ne_error uncovered error)

/-- Predicates that the path adds in the middle of the context are kept in their order, also where one
of them is repeated, and put on the last step back. -/
theorem contextualize_leaves_of_repetition : ∃ (contextSteps pathSteps : List Step) (result : Text)
    (resultSteps : List Step),
    steps "/a/b[e]/c/@x".toList = .ok contextSteps ∧
      steps "/a/b[f][e][f]/c".toList = .ok pathSteps ∧
      contextualize "/a/b[e]/c/@x".toList "/a/b[f][e][f]/c".toList = .ok result ∧
      result = "../..[f][f]/c".toList ∧ steps result = .ok resultSteps ∧
      CommonFront contextSteps pathSteps 1 ∧ LeavesAt contextSteps pathSteps 1 resultSteps ∧
      resultSteps = [.back [], .back ["f".toList, "f".toList],
        ⟨"c".toList, [], by decide +kernel, by decide⟩] := by
  let a : Step := ⟨"a".toList, [], by decide +kernel, by decide⟩
  let b : Step := ⟨"b".toList, ["e".toList], by decide +kernel, by decide⟩
  let extended : Step :=
    ⟨"b".toList, ["f".toList, "e".toList, "f".toList], by decide +kernel, by decide⟩
  let c : Step := ⟨"c".toList, [], by decide +kernel, by decide⟩
  let x : Step := ⟨"@x".toList, [], by decide +kernel, by decide⟩
  have context_eq : steps "/a/b[e]/c/@x".toList = .ok [a, b, c, x] := by decide +kernel
  have path_eq : steps "/a/b[f][e][f]/c".toList = .ok [a, extended, c] := by decide +kernel
  obtain ⟨count, result, resultSteps, front, -, computed, result_eq, leaves⟩ :=
    contextualize_leaves context_eq path_eq (by decide +kernel)
  have one : count = 1 := (commonFront_iff.1 front).trans (by decide +kernel)
  subst one
  have found := leaves.backs b extended rfl rfl ⟨rfl, by decide, by decide +kernel⟩ (by decide)
  have result_text : contextualize "/a/b[e]/c/@x".toList "/a/b[f][e][f]/c".toList =
      .ok "../..[f][f]/c".toList := by decide +kernel
  refine ⟨_, _, result, resultSteps, context_eq, path_eq, computed, ?_, result_eq, front, leaves, ?_⟩
  · exact Except.ok.inj (computed.symm.trans result_text)
  · rw [found]
    rfl

end Path

end LocationPath
