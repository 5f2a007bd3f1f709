import LocationPath.Proofs.Path.Cancelling

/-! # Joining three paths

Steps back are cancelled only where two paths meet. So it makes no difference which two of three
paths are joined first, although other paths meet then: the same steps are left, or there are too
many steps back in both cases. For this the middle path counts with the steps back that the first
path has not cancelled yet, which stop the steps back of the last path.

The texts are the same too, as long as the two first joins leave some step: a dot in place of none
would stop the next step back.

Main definitions: `Path.Regroups`, `Path.CancelsOut` and `Path.Joinable`. Main results:
`Path.regroups` and `Path.join_assoc`. -/

namespace LocationPath

namespace Path

variable {first second third : List Step}

/-! ## Three lists of steps -/

/-- Of three paths the same is left in both groupings. -/
structure Regroups (first second third : List Step) : Prop where
  /-- The same steps are left. -/
  splice_eq : splice (splice first second) third = splice first (splice second third)
  /-- There are too many steps back in both groupings or in none. -/
  overruns_iff : Overruns (splice first second) third ↔ Overruns first (splice second third)

/-- Nothing is cancelled in front of a barrier. -/
theorem splice_append_cons {step : Step} (blocked : isBarrier step = true)
    (before rest third : List Step) :
    splice (before ++ step :: rest) third = before ++ step :: splice rest third := by
  induction rest, third using meeting_induction with
  | forward rest third forward =>
    rw [splice_of_forward _ forward, splice_of_forward _ forward, List.append_assoc, List.cons_append]
  | barrier earlier last back later stops parent =>
    rw [← List.cons_append, ← List.append_assoc, splice_of_barrier stops, splice_of_barrier stops]
    simp
  | overrun back later parent =>
    rw [splice_of_barrier blocked, splice_nil_left]
    simp
  | cancelled earlier last back later ordinary parent ih =>
    rw [← List.cons_append, ← List.append_assoc, splice_cancelled ordinary parent,
      splice_cancelled ordinary parent, ih]

/-- Two paths behind one another do not start with a step back if the first one does not, nor, where
the first one is empty, the second one. -/
private theorem isParent_of_mem_head?_append
    (second_forward : ∀ step ∈ second.head?, step.isParent = false)
    (third_forward : second = [] → ∀ step ∈ third.head?, step.isParent = false) :
    ∀ step ∈ (second ++ third).head?, step.isParent = false := by
  cases second with
  | nil => exact third_forward rfl
  | cons step rest => exact second_forward

/-- A middle path that does not go back is put behind the first one in both groupings. Then the last
path meets the end of it, and the end of the first one only when all of it is gone. -/
theorem regroups_of_forward (first : List Step)
    (forward : ∀ step ∈ second.head?, step.isParent = false) : Regroups first second third := by
  induction second, third using meeting_induction with
  | forward second third third_forward =>
    have both := isParent_of_mem_head?_append forward fun _ => third_forward
    refine ⟨?_, iff_of_false (not_overruns_of_forward _ third_forward) ?_⟩
    · rw [splice_of_forward _ forward, splice_of_forward _ third_forward,
        splice_of_forward _ third_forward, splice_of_forward _ both, List.append_assoc]
    · rw [splice_of_forward _ third_forward]
      exact not_overruns_of_forward _ both
  | barrier earlier last back rest blocked parent =>
    have both : ∀ step ∈ (earlier ++ [last] ++ back :: rest).head?, step.isParent = false :=
      isParent_of_mem_head?_append forward (by simp)
    refine ⟨?_, iff_of_false ?_ ?_⟩
    · rw [splice_of_forward _ forward, ← List.append_assoc, splice_of_barrier blocked,
        splice_of_barrier blocked, splice_of_forward _ both]
      simp
    · rw [splice_of_forward _ forward]
      exact not_overruns_of_mem (by simp) blocked _
    · rw [splice_of_barrier blocked]
      exact not_overruns_of_forward _ both
  -- The middle path is empty, so the last path meets the first one in both groupings.
  | overrun back rest parent =>
    have nothing : splice first [] = first := by
      rw [splice_of_forward _ forward, List.append_nil]
    exact ⟨by rw [nothing, splice_nil_left], by rw [nothing, splice_nil_left]⟩
  | cancelled earlier last back rest ordinary parent ih =>
    -- What is left of the middle path after one pair does not go back either.
    have earlier_forward : ∀ step ∈ earlier.head?, step.isParent = false := by
      intro step mem
      cases earlier with
      | nil => simp at mem
      | cons other earlier => exact forward step mem
    obtain ⟨splice_eq, overruns_iff⟩ := ih earlier_forward
    rw [splice_of_forward _ earlier_forward] at splice_eq overruns_iff
    refine ⟨?_, ?_⟩
    · rw [splice_of_forward _ forward, ← List.append_assoc, splice_cancelled ordinary parent,
        splice_cancelled ordinary parent, splice_eq]
    · rw [splice_of_forward _ forward, ← List.append_assoc, overruns_cancelled ordinary parent,
        splice_cancelled ordinary parent, overruns_iff]

/-- **Three paths can be grouped either way**, provided that the middle one does not overrun the
first one. -/
theorem regroups (runs : ¬Overruns first second) (third : List Step) :
    Regroups first second third := by
  induction first, second using meeting_induction with
  | forward first second forward => exact regroups_of_forward first forward
  | barrier earlier last back rest blocked parent =>
    -- Both the barrier of the first path and the step back that it stops are kept.
    have behind := splice_append_cons (isBarrier_of_isParent parent) [] rest third
    rw [List.nil_append, List.nil_append] at behind
    refine ⟨?_, iff_of_false ?_ ?_⟩
    · rw [splice_of_barrier blocked, splice_append_cons (isBarrier_of_isParent parent), behind,
        splice_of_barrier blocked]
    · rw [splice_of_barrier blocked]
      exact not_overruns_of_mem (by simp) blocked _
    · exact not_overruns_of_mem (by simp) blocked _
  | overrun back rest parent => exact absurd (overruns_nil parent rest) runs
  | cancelled earlier last back rest ordinary parent ih =>
    -- The step back stops the last path, so it meets the step that it cancels in both groupings.
    have behind := splice_append_cons (isBarrier_of_isParent parent) [] rest third
    rw [List.nil_append, List.nil_append] at behind
    obtain ⟨splice_eq, overruns_iff⟩ := ih fun beyond =>
      runs ((overruns_cancelled ordinary parent earlier rest).2 beyond)
    refine ⟨?_, ?_⟩
    · rw [splice_cancelled ordinary parent, behind, splice_cancelled ordinary parent, splice_eq]
    · rw [splice_cancelled ordinary parent, behind, overruns_cancelled ordinary parent, overruns_iff]

/-! ## Steps that differ in their predicates -/

/-- **What is cancelled depends on the texts of the steps alone.** -/
theorem splice_congr {first first' second second' : List Step}
    (first_eq : first.map (·.text) = first'.map (·.text))
    (second_eq : second.map (·.text) = second'.map (·.text)) :
    (splice first second).map (·.text) = (splice first' second').map (·.text) ∧
      (Overruns first second ↔ Overruns first' second') := by
  -- Both counts can be told from the texts.
  have backs : ∀ path : List Step, backCount path =
      ((path.map (·.text)).takeWhile (· == ['.', '.'])).length := by
    intro path
    rw [List.takeWhile_map, List.length_map]
    rfl
  have opens : ∀ path : List Step, openCount path = ((path.map (·.text)).rtakeWhile fun text =>
      !((text == ['.'] || text == ['.', '.']) || text.head? == some '$')).length := by
    intro path
    rw [List.rtakeWhile, ← List.map_reverse, List.takeWhile_map, List.length_reverse,
      List.length_map, openCount, List.rtakeWhile, List.length_reverse]
    rfl
  have lengths : first.length = first'.length := by
    simpa using congrArg List.length first_eq
  have counts : backCount second = backCount second' ∧ openCount first = openCount first' := by
    rw [backs, backs, opens, opens, first_eq, second_eq]
    exact ⟨rfl, rfl⟩
  unfold splice Overruns cancelCount
  rw [counts.1, counts.2, lengths, List.map_append, List.map_append, List.map_take, List.map_take,
    List.map_drop, List.map_drop, first_eq, second_eq]
  exact ⟨rfl, Iff.rfl⟩

/-- Without predicates the texts of steps are the same. -/
theorem texts_unfiltered (found : List Step) :
    (found.map Step.unfiltered).map (·.text) = found.map (·.text) := by
  rw [List.map_map]
  rfl

/-- Steps with the same texts are written in the same way without predicates, with a dot in place of
none. -/
theorem bare_orStay_congr {found found' : List Step}
    (texts : found.map (·.text) = found'.map (·.text)) : bare (orStay found) = bare (orStay found') := by
  have lengths : found.length = found'.length := by simpa using congrArg List.length texts
  cases found with
  | nil => rw [List.length_eq_zero_iff.1 lengths.symm]
  | cons step found =>
    cases found' with
    | nil => simp at lengths
    | cons step' found' =>
      rw [orStay_eq_self (by simp), orStay_eq_self (by simp), bare, bare, texts]

/-! ## Three texts -/

/-- A text that can be joined: a path, or blank. -/
structure Joinable (text : Text) : Prop where
  /-- There is no white space that a name could hold. -/
  no_ogham : oghamSpace ∉ text
  /-- The text is accepted unless it is blank. -/
  accepted : text.isBlank = true ∨ ∃ found, steps text = .ok found

/-- No step is left of two paths, so that a dot is put in place of them. -/
def CancelsOut (first second : Text) : Prop :=
  ∃ firstSteps secondSteps, steps first = .ok firstSteps ∧ steps second = .ok secondSteps ∧
    cancel firstSteps.reverse secondSteps = some ([], [])

/-- A text that can be joined and is not blank has steps. -/
theorem Joinable.exists_steps {text : Text} (h : Joinable text) (no_blank : text.isBlank = false) :
    ∃ found, steps text = .ok found := by
  obtain blank | found := h.accepted
  · rw [no_blank] at blank
    contradiction
  · exact found

/-- Two paths of which some step is left are joined to a path with the steps that are left, without
predicates. -/
theorem exists_joined {first second joined : Text} (first_joinable : Joinable first)
    (second_joinable : Joinable second) (first_blank : first.isBlank = false)
    (second_blank : second.isBlank = false) (eq : join first second = .ok joined)
    (remains : ¬CancelsOut first second) :
    ∃ firstSteps secondSteps, steps first = .ok firstSteps ∧ steps second = .ok secondSteps ∧
      ¬Overruns firstSteps secondSteps ∧ joined.isBlank = false ∧
      steps joined = .ok ((splice firstSteps secondSteps).map Step.unfiltered) := by
  obtain ⟨firstSteps, first_eq⟩ := first_joinable.exists_steps first_blank
  obtain ⟨secondSteps, second_eq⟩ := second_joinable.exists_steps second_blank
  have runs : ¬Overruns firstSteps secondSteps := by
    intro beyond
    rw [join_of_overruns first_eq second_eq first_blank second_blank beyond] at eq
    contradiction
  have ne : splice firstSteps secondSteps ≠ [] := by
    intro gone
    obtain ⟨back, rest, cancelled, left⟩ := (cancel_reverse firstSteps secondSteps).2 runs
    rw [gone, List.append_eq_nil_iff, List.reverse_eq_nil_iff] at left
    rw [left.1, left.2] at cancelled
    exact remains ⟨firstSteps, secondSteps, first_eq, second_eq, cancelled⟩
  have readable : ∀ step ∈ splice firstSteps secondSteps, step.Readable :=
    readable_splice first_eq second_eq first_joinable.no_ogham second_joinable.no_ogham
  rw [join_of_not_overruns first_eq second_eq first_blank second_blank runs, orStay_eq_self ne] at eq
  obtain rfl := Except.ok.inj eq
  have joined_eq := steps_bare ne readable
  refine ⟨firstSteps, secondSteps, first_eq, second_eq, runs, ?_, joined_eq⟩
  -- The joined text is made of texts of readable steps, which hold no Ogham space.
  refine not_isBlank_of_steps joined_eq ?_
  rw [bare_eq]
  exact no_ogham_intercalate fun step mem => by
    obtain ⟨original, original_mem, rfl⟩ := List.mem_map.1 mem
    exact (readable original original_mem).unfiltered

/-- Two texts that can be joined are joined to a text, or there are too many steps back. -/
theorem Joinable.join_cases {first second : Text} (first_joinable : Joinable first)
    (second_joinable : Joinable second) :
    (∃ joined, join first second = .ok joined) ∨
      join first second = .error (.nothingToGoBackFrom first second) := by
  cases first_blank : first.isBlank with
  | true => exact .inl ⟨second, join_of_isBlank_left first_blank second⟩
  | false =>
    cases second_blank : second.isBlank with
    | true => exact .inl ⟨first, join_of_isBlank_right first_blank second_blank⟩
    | false =>
      obtain ⟨firstSteps, first_eq⟩ := first_joinable.exists_steps first_blank
      obtain ⟨secondSteps, second_eq⟩ := second_joinable.exists_steps second_blank
      by_cases beyond : Overruns firstSteps secondSteps
      · exact .inr (join_of_overruns first_eq second_eq first_blank second_blank beyond)
      · exact .inl ⟨_, join_of_not_overruns first_eq second_eq first_blank second_blank beyond⟩

/-- Two paths that were joined from three ones, with the first two or with the last two of them, are
joined to the same text with the path that is missing. -/
theorem join_of_regroups {first third front rear : Text}
    {firstSteps secondSteps thirdSteps : List Step} (first_blank : first.isBlank = false)
    (third_blank : third.isBlank = false) (front_blank : front.isBlank = false)
    (rear_blank : rear.isBlank = false) (first_eq : steps first = .ok firstSteps)
    (third_eq : steps third = .ok thirdSteps)
    (front_eq : steps front = .ok ((splice firstSteps secondSteps).map Step.unfiltered))
    (rear_eq : steps rear = .ok ((splice secondSteps thirdSteps).map Step.unfiltered))
    (regroups : Regroups firstSteps secondSteps thirdSteps) :
    (∃ result, join front third = .ok result ∧ join first rear = .ok result) ∨
      (join front third = .error (.nothingToGoBackFrom front third) ∧
        join first rear = .error (.nothingToGoBackFrom first rear)) := by
  -- On both sides the steps have lost their predicates, which makes no difference to the texts.
  obtain ⟨front_texts, front_overruns⟩ := splice_congr
    (texts_unfiltered (splice firstSteps secondSteps)) (Eq.refl (thirdSteps.map (·.text)))
  obtain ⟨rear_texts, rear_overruns⟩ := splice_congr (Eq.refl (firstSteps.map (·.text)))
    (texts_unfiltered (splice secondSteps thirdSteps))
  by_cases beyond : Overruns (splice firstSteps secondSteps) thirdSteps
  · refine .inr ⟨?_, ?_⟩
    · exact join_of_overruns front_eq third_eq front_blank third_blank (front_overruns.2 beyond)
    · exact join_of_overruns first_eq rear_eq first_blank rear_blank
        (rear_overruns.2 (regroups.overruns_iff.1 beyond))
  · have texts := congrArg (List.map (·.text)) regroups.splice_eq
    refine .inl ⟨_, join_of_not_overruns front_eq third_eq front_blank third_blank
      (mt front_overruns.1 beyond), ?_⟩
    rw [join_of_not_overruns first_eq rear_eq first_blank rear_blank
      fun behind => beyond (regroups.overruns_iff.2 (rear_overruns.1 behind))]
    rw [bare_orStay_congr (front_texts.trans (texts.trans rear_texts.symm))]

/-- **Joining is associative.** Where the first two of three texts can be joined and the last two as
well, and some step is left in both cases, it makes no difference which of them are joined first: the
result is the same text, or there is nothing left to go back from in both groupings. -/
theorem join_assoc {first second third front rear : Text} (first_joinable : Joinable first)
    (second_joinable : Joinable second) (third_joinable : Joinable third)
    (front_eq : join first second = .ok front) (rear_eq : join second third = .ok rear)
    (front_remains : ¬CancelsOut first second) (rear_remains : ¬CancelsOut second third) :
    (∃ result, join front third = .ok result ∧ join first rear = .ok result) ∨
      (join front third = .error (.nothingToGoBackFrom front third) ∧
        join first rear = .error (.nothingToGoBackFrom first rear)) := by
  -- A blank text is joined to any other one without a change, whichever of the three it is.
  obtain first_blank | first_blank := first.isBlank.eq_false_or_eq_true
  · rw [join_of_isBlank_left first_blank] at front_eq
    obtain rfl := Except.ok.inj front_eq
    exact .inl ⟨rear, rear_eq, join_of_isBlank_left first_blank rear⟩
  obtain second_blank | second_blank := second.isBlank.eq_false_or_eq_true
  · rw [join_of_isBlank_right first_blank second_blank] at front_eq
    rw [join_of_isBlank_left second_blank] at rear_eq
    obtain rfl := Except.ok.inj front_eq
    obtain rfl := Except.ok.inj rear_eq
    obtain ⟨joined, eq⟩ | failed := first_joinable.join_cases third_joinable
    · exact .inl ⟨joined, eq, eq⟩
    · exact .inr ⟨failed, failed⟩
  obtain ⟨firstSteps, secondSteps, first_steps, second_steps, runs, front_blank, front_steps⟩ :=
    exists_joined first_joinable second_joinable first_blank second_blank front_eq front_remains
  obtain third_blank | third_blank := third.isBlank.eq_false_or_eq_true
  · rw [join_of_isBlank_right second_blank third_blank] at rear_eq
    obtain rfl := Except.ok.inj rear_eq
    exact .inl ⟨front, join_of_isBlank_right front_blank third_blank, front_eq⟩
  obtain ⟨secondSteps', thirdSteps, second_steps', third_steps, -, rear_blank, rear_steps⟩ :=
    exists_joined second_joinable third_joinable second_blank third_blank rear_eq rear_remains
  obtain rfl := Except.ok.inj (second_steps.symm.trans second_steps')
  exact join_of_regroups first_blank third_blank front_blank rear_blank first_steps third_steps
    front_steps rear_steps (regroups runs thirdSteps)

/-- In one grouping the last path goes back over the step that the middle one ends with and then over
one of the first path; in the other one three steps back have come together, which go back over the
same steps. -/
theorem join_assoc_of_backs : ∃ result : Text,
    join "a/b[1]/c".toList "../../d".toList = .ok "a/d".toList ∧
      join "../../d".toList "../../$e".toList = .ok "../../../$e".toList ∧
      join "a/d".toList "../../$e".toList = .ok result ∧
      join "a/b[1]/c".toList "../../../$e".toList = .ok result ∧ result = "$e".toList := by
  have first_eq : steps "a/b[1]/c".toList = .ok [⟨"a".toList, [], by decide +kernel, by decide⟩,
      ⟨"b".toList, ["1".toList], by decide +kernel, by decide⟩,
      ⟨"c".toList, [], by decide +kernel, by decide⟩] := by decide +kernel
  have second_eq : steps "../../d".toList = .ok [.back [], .back [],
      ⟨"d".toList, [], by decide +kernel, by decide⟩] := by decide +kernel
  have third_eq : steps "../../$e".toList = .ok [.back [], .back [],
      ⟨"$e".toList, [], by decide +kernel, by decide⟩] := by decide +kernel
  have front_eq : join "a/b[1]/c".toList "../../d".toList = .ok "a/d".toList := by decide +kernel
  have rear_eq : join "../../d".toList "../../$e".toList = .ok "../../../$e".toList := by
    decide +kernel
  have result_eq : join "a/d".toList "../../$e".toList = .ok "$e".toList := by decide +kernel
  have first_joinable : Joinable "a/b[1]/c".toList := ⟨by decide +kernel, .inr ⟨_, first_eq⟩⟩
  have second_joinable : Joinable "../../d".toList := ⟨by decide +kernel, .inr ⟨_, second_eq⟩⟩
  have third_joinable : Joinable "../../$e".toList := ⟨by decide +kernel, .inr ⟨_, third_eq⟩⟩
  have front_remains : ¬CancelsOut "a/b[1]/c".toList "../../d".toList := by
    rintro ⟨firstSteps, secondSteps, eq, eq', cancelled⟩
    obtain rfl := Except.ok.inj (first_eq.symm.trans eq)
    obtain rfl := Except.ok.inj (second_eq.symm.trans eq')
    exact absurd cancelled (by decide +kernel)
  have rear_remains : ¬CancelsOut "../../d".toList "../../$e".toList := by
    rintro ⟨secondSteps, thirdSteps, eq, eq', cancelled⟩
    obtain rfl := Except.ok.inj (second_eq.symm.trans eq)
    obtain rfl := Except.ok.inj (third_eq.symm.trans eq')
    exact absurd cancelled (by decide +kernel)
  obtain ⟨result, joined, joined'⟩ | ⟨failed, -⟩ := join_assoc first_joinable second_joinable
    third_joinable front_eq rear_eq front_remains rear_remains
  · exact ⟨result, front_eq, rear_eq, joined, joined',
      Except.ok.inj (joined.symm.trans result_eq)⟩
  · rw [result_eq] at failed
    contradiction

end Path

end LocationPath
