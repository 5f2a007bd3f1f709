import LocationPath.Proofs.Path.Joining
import Mathlib.Data.List.DropRight

/-! # How far a joined path is cancelled

Where a path is put behind another one, its steps back meet the last steps of the other one. Both
are cancelled in pairs, until the steps back or the ordinary steps have come to an end. So the number
of pairs is the smaller one of two numbers: that of the steps back at the start of the second path,
and that of the ordinary steps at the end of the first one. There is an error only if steps back are
left and nothing else.

Main definitions: `Path.backCount`, `Path.openCount`, `Path.splice` and `Path.Overruns`. Main results:
`Path.meeting_induction` (what the end of one path and the start of another one can be),
`Path.cancel_reverse` and `Path.join_cancels`. -/

namespace LocationPath

namespace Path

variable {first second : List Step}

/-! ## Where two paths meet -/

/-- **Induction over the place where two paths meet**: nothing goes back, something goes back to a
barrier or to nothing at all, or a step back is cancelled against an ordinary step and the rest of the
paths meet. -/
theorem meeting_induction {motive : List Step → List Step → Prop}
    (forward : ∀ first second, (∀ step ∈ second.head?, step.isParent = false) → motive first second)
    (barrier : ∀ earlier last back rest, isBarrier last = true → back.isParent = true →
      motive (earlier ++ [last]) (back :: rest))
    (overrun : ∀ back rest, back.isParent = true → motive [] (back :: rest))
    (cancelled : ∀ earlier last back rest, isBarrier last = false → back.isParent = true →
      motive earlier rest → motive (earlier ++ [last]) (back :: rest))
    (first second : List Step) : motive first second := by
  -- Each step back of the second path takes one step from the end of the first one.
  induction second generalizing first with
  | nil => exact forward first [] (by simp)
  | cons back rest ih =>
    cases parent : back.isParent with
    | false =>
      refine forward first (back :: rest) fun step mem => ?_
      obtain rfl := Option.mem_some.1 mem
      exact parent
    | true =>
      obtain rfl | ⟨earlier, last, rfl⟩ := List.eq_nil_or_concat' first
      · exact overrun back rest parent
      · cases blocked : isBarrier last with
        | true => exact barrier earlier last back rest blocked parent
        | false => exact cancelled earlier last back rest blocked parent (ih earlier)

/-- A step back is a barrier. -/
theorem isBarrier_of_isParent {step : Step} (h : step.isParent = true) : isBarrier step = true := by
  simp [isBarrier, Step.isDots, h]

/-! ## The number of steps that are cancelled -/

/-- The number of steps back at the start of a path. -/
def backCount (path : List Step) : Nat := (path.takeWhile Step.isParent).length

/-- The number of steps at the end of a path up to the last barrier in it. -/
def openCount (path : List Step) : Nat := (path.rtakeWhile fun step => !isBarrier step).length

/-- The number of steps that each of two paths loses where they meet. -/
def cancelCount (first second : List Step) : Nat := min (backCount second) (openCount first)

/-- What is left of two paths, one behind the other. -/
def splice (first second : List Step) : List Step :=
  first.take (first.length - cancelCount first second) ++ second.drop (cancelCount first second)

/-- The second path goes back over all of the first path, which has ordinary steps only, and
further. -/
def Overruns (first second : List Step) : Prop :=
  openCount first = first.length ∧ openCount first < backCount second

instance (first second : List Step) : Decidable (Overruns first second) :=
  inferInstanceAs (Decidable (_ ∧ _))

/-- A path that starts with something else has no steps back at its start. -/
theorem backCount_eq_zero (h : ∀ step ∈ second.head?, step.isParent = false) :
    backCount second = 0 := by
  cases second with
  | nil => rfl
  | cons step rest => simp [backCount, h step rfl]

/-- A step back is counted. -/
theorem backCount_cons {back : Step} (parent : back.isParent = true) (rest : List Step) :
    backCount (back :: rest) = backCount rest + 1 := by
  simp [backCount, parent]

@[simp] theorem openCount_nil : openCount [] = 0 := by simp [openCount]

/-- Nothing is counted in front of a barrier. -/
theorem openCount_concat_barrier {last : Step} (blocked : isBarrier last = true)
    (earlier : List Step) : openCount (earlier ++ [last]) = 0 := by
  rw [openCount, List.rtakeWhile_concat_neg _ _ _ (by simp [blocked]), List.length_nil]

/-- An ordinary step is counted. -/
theorem openCount_concat {last : Step} (ordinary : isBarrier last = false) (earlier : List Step) :
    openCount (earlier ++ [last]) = openCount earlier + 1 := by
  rw [openCount, List.rtakeWhile_concat_pos _ _ _ (by simp [ordinary]), List.length_append,
    List.length_singleton, ← openCount]

/-- All steps are counted if there is no barrier among them. -/
theorem openCount_eq_length_iff {path : List Step} :
    openCount path = path.length ↔ ∀ step ∈ path, isBarrier step = false := by
  have suffix := List.rtakeWhile_suffix (fun step => !isBarrier step) path
  constructor
  · intro all step mem
    have every := List.rtakeWhile_eq_self_iff.1 (suffix.eq_of_length all) step mem
    simpa using every
  · intro ordinary
    rw [openCount, List.rtakeWhile_eq_self_iff.2]
    intro step mem
    simp [ordinary step mem]

/-! ## What is left -/

/-- Where nothing is cancelled, both paths are left. -/
theorem splice_eq_append (h : cancelCount first second = 0) :
    splice first second = first ++ second := by
  simp [splice, h]

/-- A path that does not go back is put behind the other one. -/
theorem splice_of_forward (first : List Step)
    (h : ∀ step ∈ second.head?, step.isParent = false) :
    splice first second = first ++ second :=
  splice_eq_append (by simp [cancelCount, backCount_eq_zero h])

/-- A path is put behind a barrier. -/
theorem splice_of_barrier {last : Step} (blocked : isBarrier last = true)
    (earlier second : List Step) :
    splice (earlier ++ [last]) second = earlier ++ [last] ++ second :=
  splice_eq_append (by simp [cancelCount, openCount_concat_barrier blocked])

/-- Nothing is left of no steps. -/
theorem splice_nil_left (second : List Step) : splice [] second = second :=
  splice_eq_append (by simp [cancelCount])

/-- A step back and an ordinary step are both lost. -/
theorem splice_cancelled {last back : Step} (ordinary : isBarrier last = false)
    (parent : back.isParent = true) (earlier rest : List Step) :
    splice (earlier ++ [last]) (back :: rest) = splice earlier rest := by
  have count : cancelCount (earlier ++ [last]) (back :: rest) = cancelCount earlier rest + 1 := by
    rw [cancelCount, backCount_cons parent, openCount_concat ordinary, cancelCount]
    omega
  have length : (earlier ++ [last]).length - (cancelCount earlier rest + 1) =
      earlier.length - cancelCount earlier rest := by
    rw [List.length_append, List.length_singleton]
    omega
  rw [splice, count, length, List.take_append_of_le_length (Nat.sub_le _ _), List.drop_succ_cons,
    ← splice]

/-- A path that does not go back does not overrun another one. -/
theorem not_overruns_of_forward (first : List Step)
    (h : ∀ step ∈ second.head?, step.isParent = false) : ¬Overruns first second := by
  rintro ⟨-, lt⟩
  rw [backCount_eq_zero h] at lt
  exact Nat.not_lt_zero _ lt

/-- No path overruns one with a barrier in it. -/
theorem not_overruns_of_mem {step : Step} (mem : step ∈ first) (blocked : isBarrier step = true)
    (second : List Step) : ¬Overruns first second := by
  rintro ⟨all, -⟩
  have ordinary := openCount_eq_length_iff.1 all step mem
  rw [blocked] at ordinary
  contradiction

/-- A step back overruns a path without steps. -/
theorem overruns_nil {back : Step} (parent : back.isParent = true) (rest : List Step) :
    Overruns [] (back :: rest) :=
  ⟨openCount_nil, by rw [openCount_nil, backCount_cons parent]; exact Nat.succ_pos _⟩

/-- A cancelled pair of steps makes no difference to whether there are too many steps back. -/
theorem overruns_cancelled {last back : Step} (ordinary : isBarrier last = false)
    (parent : back.isParent = true) (earlier rest : List Step) :
    Overruns (earlier ++ [last]) (back :: rest) ↔ Overruns earlier rest := by
  unfold Overruns
  rw [openCount_concat ordinary, backCount_cons parent, List.length_append, List.length_singleton,
    Nat.add_right_cancel_iff, Nat.add_lt_add_iff_right]

/-! ## Cancelling -/

/-- **Steps are cancelled in pairs, as many as both paths have.** What is cancelled from the last
step of the first path on comes to no result exactly if the second path overruns the first one. -/
theorem cancel_reverse (first second : List Step) :
    (Overruns first second → cancel first.reverse second = none) ∧
      (¬Overruns first second → ∃ back rest, cancel first.reverse second = some (back, rest) ∧
        back.reverse ++ rest = splice first second) := by
  induction first, second using meeting_induction with
  | forward first second forward =>
    refine ⟨fun beyond => absurd beyond (not_overruns_of_forward first forward), fun _ => ?_⟩
    rw [cancel_eq_self forward, splice_of_forward first forward]
    exact ⟨_, _, rfl, by rw [List.reverse_reverse]⟩
  | barrier earlier last back rest blocked parent =>
    refine ⟨fun beyond => absurd beyond (not_overruns_of_mem (by simp) blocked _), fun _ => ?_⟩
    have kept : cancel (earlier ++ [last]).reverse (back :: rest) =
        some ((earlier ++ [last]).reverse, back :: rest) := by
      rw [List.reverse_concat, cancel, if_pos parent]
      exact if_pos blocked
    rw [kept, splice_of_barrier blocked]
    exact ⟨_, _, rfl, by rw [List.reverse_reverse]⟩
  | overrun back rest parent =>
    refine ⟨fun _ => ?_, fun runs => absurd (overruns_nil parent rest) runs⟩
    rw [List.reverse_nil, cancel, if_pos parent]
  | cancelled earlier last back rest ordinary parent ih =>
    -- One round of the loop takes a step from both sides.
    have paired : cancel (earlier ++ [last]).reverse (back :: rest) =
        cancel earlier.reverse rest := by
      rw [List.reverse_concat, cancel, if_pos parent]
      exact if_neg (by simp [ordinary])
    rwa [paired, overruns_cancelled ordinary parent, splice_cancelled ordinary parent]

/-- A blank text in front of a path makes no difference. -/
theorem join_of_isBlank_left {first : Text} (blank : first.isBlank = true) (second : Text) :
    join first second = .ok second := by
  rw [join, if_pos blank]
  rfl

/-- A blank text behind a path makes no difference. -/
theorem join_of_isBlank_right {first second : Text} (first_blank : first.isBlank = false)
    (blank : second.isBlank = true) : join first second = .ok first := by
  rw [join, if_neg (by simp [first_blank]), if_pos blank]
  rfl

/-- A path with more steps back than can be cancelled is not joined. -/
theorem join_of_overruns {first second : Text} {firstSteps secondSteps : List Step}
    (first_eq : steps first = .ok firstSteps) (second_eq : steps second = .ok secondSteps)
    (first_blank : first.isBlank = false) (second_blank : second.isBlank = false)
    (beyond : Overruns firstSteps secondSteps) :
    join first second = .error (.nothingToGoBackFrom first second) := by
  have nothing := (cancel_reverse firstSteps secondSteps).1 beyond
  rw [join, if_neg (by simp [first_blank]), if_neg (by simp [second_blank]), first_eq, second_eq]
  simp only [bind, Except.bind, nothing]

/-- Any other path is joined to what is left of both. -/
theorem join_of_not_overruns {first second : Text} {firstSteps secondSteps : List Step}
    (first_eq : steps first = .ok firstSteps) (second_eq : steps second = .ok secondSteps)
    (first_blank : first.isBlank = false) (second_blank : second.isBlank = false)
    (runs : ¬Overruns firstSteps secondSteps) :
    join first second = .ok (bare (orStay (splice firstSteps secondSteps))) := by
  obtain ⟨back, rest, cancelled, left⟩ := (cancel_reverse firstSteps secondSteps).2 runs
  rw [join_eq first_eq second_eq first_blank second_blank cancelled, left]

/-- The steps that are left of two paths are steps of the one or of the other. -/
theorem mem_of_mem_splice {step : Step} (mem : step ∈ splice first second) :
    step ∈ first ∨ step ∈ second := by
  rcases List.mem_append.1 mem with mem | mem
  · exact .inl (List.mem_of_mem_take mem)
  · exact .inr (List.mem_of_mem_drop mem)

/-- The steps that are left of two accepted texts can be read back. -/
theorem readable_splice {first second : Text} {firstSteps secondSteps : List Step}
    (first_eq : steps first = .ok firstSteps) (second_eq : steps second = .ok secondSteps)
    (first_no_ogham : oghamSpace ∉ first) (second_no_ogham : oghamSpace ∉ second) :
    ∀ step ∈ splice firstSteps secondSteps, step.Readable := by
  intro step mem
  rcases mem_of_mem_splice mem with mem | mem
  · exact readable_of_steps first_eq first_no_ogham step mem
  · exact readable_of_steps second_eq second_no_ogham step mem

/-- **Two paths are joined as far as they can be.** There is an error exactly if all steps of the
first path are ordinary and the second path has more steps back at its start than these. Otherwise
the steps back cancel as many ordinary steps at the end of the first path as there are, and the
joined path has the texts of the steps that are left, or a dot if none is left, without any
predicates. -/
theorem join_cancels {first second : Text} {firstSteps secondSteps : List Step}
    (first_eq : steps first = .ok firstSteps) (second_eq : steps second = .ok secondSteps)
    (first_no_ogham : oghamSpace ∉ first) (second_no_ogham : oghamSpace ∉ second) :
    (join first second = .error (.nothingToGoBackFrom first second) ↔
      Overruns firstSteps secondSteps) ∧
    (¬Overruns firstSteps secondSteps → ∃ result resultSteps,
      join first second = .ok result ∧ steps result = .ok resultSteps ∧
      (∀ step ∈ resultSteps, step.predicates = []) ∧
      (splice firstSteps secondSteps ≠ [] →
        resultSteps.map (·.text) = (splice firstSteps secondSteps).map (·.text)) ∧
      (splice firstSteps secondSteps = [] → resultSteps.map (·.text) = [['.']])) := by
  have first_blank := not_isBlank_of_steps first_eq first_no_ogham
  have second_blank := not_isBlank_of_steps second_eq second_no_ogham
  have joined := join_of_not_overruns first_eq second_eq first_blank second_blank
  refine ⟨⟨fun failed => ?_, join_of_overruns first_eq second_eq first_blank second_blank⟩,
    fun runs => ?_⟩
  · by_contra runs
    rw [joined runs] at failed
    contradiction
  · obtain ⟨ne, or_stay⟩ := readable_orStay
      (readable_splice first_eq second_eq first_no_ogham second_no_ogham)
    refine ⟨_, _, joined runs, steps_bare ne or_stay, ?_, fun remains => ?_, fun gone => ?_⟩
    · intro step mem
      obtain ⟨original, -, rfl⟩ := List.mem_map.1 mem
      rfl
    · rw [orStay_eq_self remains, List.map_map]
      rfl
    · rw [gone]
      rfl

/-- A step back with a predicate is cancelled like any other one, and a reference to a variable stops
the last of three steps back; without the reference there is nothing left to go back from. -/
theorem join_cancels_of_variable : ∃ (firstSteps secondSteps : List Step) (result : Text)
    (resultSteps : List Step),
    steps "/a/$v[1]/b/@c".toList = .ok firstSteps ∧
      steps "../..[x]/../d[y]".toList = .ok secondSteps ∧
      ¬Overruns firstSteps secondSteps ∧
      join "/a/$v[1]/b/@c".toList "../..[x]/../d[y]".toList = .ok result ∧
      result = "a/$v/../d".toList ∧ steps result = .ok resultSteps ∧
      resultSteps.map (·.text) = ["a".toList, "$v".toList, "..".toList, "d".toList] ∧
      join "b/@c".toList "../..[x]/../d[y]".toList =
        .error (.nothingToGoBackFrom "b/@c".toList "../..[x]/../d[y]".toList) := by
  have named : steps "b/@c".toList = .ok [⟨"b".toList, [], by decide +kernel, by decide⟩,
      ⟨"@c".toList, [], by decide +kernel, by decide⟩] := by decide +kernel
  have first_eq : steps "/a/$v[1]/b/@c".toList = .ok
      [⟨"a".toList, [], by decide +kernel, by decide⟩,
        ⟨"$v".toList, ["1".toList], by decide +kernel, by decide⟩,
        ⟨"b".toList, [], by decide +kernel, by decide⟩,
        ⟨"@c".toList, [], by decide +kernel, by decide⟩] := by decide +kernel
  have second_eq : steps "../..[x]/../d[y]".toList = .ok [.back [], .back ["x".toList], .back [],
      ⟨"d".toList, ["y".toList], by decide +kernel, by decide⟩] := by decide +kernel
  have failed := (join_cancels named second_eq (by decide +kernel) (by decide +kernel)).1.2
    (by decide +kernel)
  obtain ⟨result, resultSteps, joined, result_eq, -, texts, -⟩ :=
    (join_cancels first_eq second_eq (by decide +kernel) (by decide +kernel)).2 (by decide +kernel)
  have joined_eq : join "/a/$v[1]/b/@c".toList "../..[x]/../d[y]".toList =
      .ok "a/$v/../d".toList := by decide +kernel
  exact ⟨_, _, result, resultSteps, first_eq, second_eq, by decide +kernel, joined,
    Except.ok.inj (joined.symm.trans joined_eq), result_eq, texts (by decide +kernel), failed⟩

end Path

end LocationPath
