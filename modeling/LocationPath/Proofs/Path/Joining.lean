import LocationPath.Proofs.Path.ContextualMeaning

/-! # The steps of a joined path

A joined path is put together as a text of bare steps. Its steps are those of the two paths without
predicates, less the steps back at the start of the second path and as many steps at the end of the
first one.

A path in a context, joined to the context, leads along the path itself again: the steps back of the
one cancel exactly those steps of the context that the path does not share.

Main definitions: `Step.unfiltered`, `Path.trail` and `Path.Divides`. Main results: `Path.exists_join`,
`Path.divides_contextualSteps` and `Path.join_contextualize`. -/

namespace LocationPath

/-! ## Steps without predicates -/

/-- A step without its predicates. -/
def Step.unfiltered (step : Step) : Step := { step with predicates := [] }

/-- Without predicates a step is written as its own text. -/
@[simp] theorem Step.toText_unfiltered (step : Step) : step.unfiltered.toText = step.text :=
  List.append_nil _

/-- A step that can be read back can be read back without its predicates. -/
theorem Step.Readable.unfiltered {step : Step} (h : step.Readable) : step.unfiltered.Readable := by
  obtain ⟨front, reads⟩ := h
  refine ⟨front, reads.spells, by simp [Step.unfiltered], fun mem => ?_⟩
  rw [Step.toText_unfiltered] at mem
  exact reads.no_ogham (List.mem_append_left _ mem)

namespace Path

/-- The texts of steps between slashes are the steps without predicates between slashes. -/
theorem bare_eq (steps : List Step) :
    bare steps = ['/'].intercalate ((steps.map Step.unfiltered).map Step.toText) := by
  rw [bare, List.map_map]
  congr 2
  funext step
  exact step.toText_unfiltered.symm

/-- Steps that can be read back can all be read back without their predicates. -/
theorem readable_map_unfiltered {found : List Step} (readable : ∀ step ∈ found, step.Readable) :
    ∀ step ∈ found.map Step.unfiltered, step.Readable := by
  intro step mem
  obtain ⟨original, original_mem, rfl⟩ := List.mem_map.1 mem
  exact (readable original original_mem).unfiltered

/-- The texts of readable steps between slashes are a chain of these steps without predicates. -/
theorem chains_bare {found : List Step} (ne : found ≠ [])
    (readable : ∀ step ∈ found, step.Readable) :
    (bare found).Chains 0 (found.map Step.unfiltered) := by
  rw [bare_eq]
  exact chains_intercalate (by simpa using ne) (readable_map_unfiltered readable)

/-- **The texts of readable steps between slashes are a path** of these steps without predicates. -/
theorem steps_bare {found : List Step} (ne : found ≠ [])
    (readable : ∀ step ∈ found, step.Readable) :
    steps (bare found) = .ok (found.map Step.unfiltered) := by
  rw [bare_eq]
  exact steps_intercalate (by simpa using ne) (readable_map_unfiltered readable)

/-! ## Accepted texts -/

/-- An accepted text holds more than white space, as it starts with a token behind layout. -/
theorem not_isBlank_of_steps {text : Text} {found : List Step} (h : steps text = .ok found)
    (no_ogham : oghamSpace ∉ text) : text.isBlank = false := by
  obtain ⟨info, parsed, -⟩ := bind_eq_ok_iff.1 h
  obtain ⟨tree, parsed, -⟩ := bind_eq_ok_iff.1 parsed
  obtain ⟨derivation, tokenized, -⟩ := Node.parse_eq_ok_iff_exists.1 parsed
  obtain ⟨token, rest, eq, -⟩ := derivation.exists_first
  obtain ⟨after, c, more, spelled, slice_eq⟩ := tokenized.exists_spelled token (by simp [eq])
  have mem : c ∈ text := Text.mem_of_mem_slice (by rw [slice_eq]; simp)
  have no_white : isWhiteSpace c = false :=
    isWhiteSpace_of_isEdge spelled.isEdge.1 fun ogham => no_ogham (ogham ▸ mem)
  rw [Text.isBlank, List.all_eq_false]
  exact ⟨c, mem, by simp [no_white]⟩

/-! ## Cancelled steps -/

/-- Steps back cancel as many ordinary steps. -/
theorem cancel_append {ordinary backs : List Step} (length : backs.length = ordinary.length)
    (no_barrier : ∀ step ∈ ordinary, isBarrier step = false)
    (parents : ∀ step ∈ backs, step.isParent = true) (earlier rest : List Step) :
    cancel (ordinary ++ earlier) (backs ++ rest) = cancel earlier rest := by
  induction backs generalizing ordinary with
  | nil =>
    rw [List.length_nil] at length
    rw [List.length_eq_zero_iff.1 length.symm]
    rfl
  | cons back backs ih =>
    cases ordinary with
    | nil => simp at length
    | cons step ordinary =>
      rw [List.cons_append, List.cons_append, cancel, if_pos (parents back (by simp))]
      show (if isBarrier step = true then _ else _) = _
      rw [if_neg (by simp [no_barrier step (by simp)])]
      exact ih (by simpa using length) (fun other mem => no_barrier other (by simp [mem]))
        fun other mem => parents other (by simp [mem])

/-- Nothing is cancelled by a path that does not start with a step back. -/
theorem cancel_eq_self {rest : List Step} (h : ∀ step ∈ rest.head?, step.isParent = false)
    (back : List Step) : cancel back rest = some (back, rest) := by
  cases rest with
  | nil => rw [cancel]
  | cons step rest => exact cancel_of_not_isParent (h step rfl) back rest

/-- Where the steps back can be cancelled, a joined path is the text of the steps that are left, or
a dot if none is left. -/
theorem join_eq {first second : Text} {firstSteps secondSteps back rest : List Step}
    (first_eq : steps first = .ok firstSteps) (second_eq : steps second = .ok secondSteps)
    (first_blank : first.isBlank = false) (second_blank : second.isBlank = false)
    (cancelled : cancel firstSteps.reverse secondSteps = some (back, rest)) :
    join first second = .ok (bare (orStay (back.reverse ++ rest))) := by
  rw [join, if_neg (by simp [first_blank]), if_neg (by simp [second_blank]), first_eq, second_eq]
  simp only [bind, Except.bind, cancelled]
  cases back with
  | nil => cases rest <;> rfl
  | cons last back =>
    rw [orStay_eq_self (by simp)]
    cases rest <;> rfl

/-- **A joined path has the steps that are left**, without predicates. -/
theorem exists_join {first second : Text} {firstSteps secondSteps back rest : List Step}
    (first_eq : steps first = .ok firstSteps) (second_eq : steps second = .ok secondSteps)
    (first_blank : first.isBlank = false) (second_blank : second.isBlank = false)
    (cancelled : cancel firstSteps.reverse secondSteps = some (back, rest))
    (readable : ∀ step ∈ back.reverse ++ rest, step.Readable) :
    ∃ result, join first second = .ok result ∧
      steps result = .ok ((orStay (back.reverse ++ rest)).map Step.unfiltered) := by
  obtain ⟨ne, or_stay⟩ := readable_orStay readable
  exact ⟨_, join_eq first_eq second_eq first_blank second_blank cancelled, steps_bare ne or_stay⟩

/-! ## Trails -/

/-- The texts of some steps, without single dots. -/
def trail (steps : List Step) : List Text := (steps.map (·.text)).filter (· ≠ ['.'])

theorem trail_append (first second : List Step) :
    trail (first ++ second) = trail first ++ trail second := by
  simp [trail]

/-- A path without dots is a trail. -/
theorem trail_eq_map {steps : List Step} (h : ∀ step ∈ steps, step.isDots = false) :
    trail steps = steps.map (·.text) := by
  rw [trail, List.filter_eq_self]
  intro text mem
  obtain ⟨step, step_mem, rfl⟩ := List.mem_map.1 mem
  have ordinary := h step step_mem
  rw [Step.isDots, Bool.or_eq_false_iff, Step.isSelf, beq_eq_false_iff_ne] at ordinary
  simpa using ordinary.1

theorem trail_singleton {step : Step} (h : step.isDots = false) : trail [step] = [step.text] :=
  trail_eq_map fun _ mem => (List.mem_singleton.1 mem) ▸ h

/-- A dot in place of no steps at all leaves the trail as it is. -/
@[simp] theorem trail_orStay (steps : List Step) : trail (orStay steps) = trail steps := by
  cases steps with
  | nil => rfl
  | cons step steps => rfl

@[simp] theorem trail_map_unfiltered (steps : List Step) :
    trail (steps.map Step.unfiltered) = trail steps := by
  rw [trail, trail, List.map_map]
  rfl

/-- A step of dots alone has no trail. -/
theorem trail_cons_stay (predicates : List Text) (steps : List Step) :
    trail (.stay predicates :: steps) = trail steps := rfl

/-! ## What a contextual path goes back over -/

/-- Some steps **divide** a context: they go back over its last steps, one by one, and then onward, so
that its first steps and the way onward have a given trail. -/
def Divides (context steps : List Step) (texts : List Text) : Prop :=
  ∃ kept left backs onward, context = kept ++ left ∧ steps = backs ++ onward ∧
    backs.length = left.length ∧ (∀ step ∈ backs, step.isParent = true) ∧
      (∀ step ∈ onward.head?, step.isParent = false) ∧ trail (kept ++ onward) = texts

/-- A way that starts with a dot goes back over nothing. -/
theorem divides_stay (context onward : List Step) (predicates : List Text) :
    Divides context (.stay predicates :: onward) (trail context ++ trail onward) := by
  refine ⟨context, [], [], .stay predicates :: onward, by simp, rfl, rfl, by simp, ?_, ?_⟩
  · intro step mem
    obtain rfl := Option.mem_some.1 mem
    rfl
  · rw [trail_append, trail_cons_stay]

/-- Steps back go back over as many steps at the end of a context. -/
theorem divides_backs {left backs onward : List Step} (kept : List Step)
    (length : backs.length = left.length) (parents : ∀ step ∈ backs, step.isParent = true)
    (no_parent : ∀ step ∈ onward.head?, step.isParent = false) :
    Divides (kept ++ left) (backs ++ onward) (trail kept ++ trail onward) :=
  ⟨kept, left, backs, onward, rfl, rfl, length, parents, no_parent, trail_append kept onward⟩

/-- A step at the start of a context is kept. -/
theorem Divides.cons {context steps : List Step} {texts : List Text}
    (h : Divides context steps texts) (first : Step) :
    Divides (first :: context) steps (trail [first] ++ texts) := by
  obtain ⟨kept, left, backs, onward, rfl, rfl, length, parents, no_parent, rfl⟩ := h
  exact ⟨first :: kept, left, backs, onward, rfl, rfl, length, parents, no_parent,
    trail_append [first] (kept ++ onward)⟩

/-- All of these steps lead back. -/
theorem isParent_of_mem_backs (count : Nat) :
    ∀ step ∈ List.replicate count (Step.back []), step.isParent = true := by
  intro step mem
  rw [List.eq_of_mem_replicate mem]
  rfl

/-- A path without dots starts with no step back. -/
theorem isParent_of_mem_head? {path : List Step} (ordinary : ∀ step ∈ path, step.isDots = false) :
    ∀ step ∈ path.head?, step.isParent = false := fun step mem =>
  (Bool.or_eq_false_iff.1 (ordinary step (List.mem_of_head? mem))).2

/-- **A path in a context divides the context**, if there are no dots in the two of them: it goes back
over the last steps of the context, and the first ones and the way onward have the trail of the
path. -/
theorem divides_contextualSteps {context path : List Step}
    (context_ordinary : ∀ step ∈ context, step.isDots = false)
    (path_ordinary : ∀ step ∈ path, step.isDots = false) :
    Divides context (contextualSteps context path) (trail path) := by
  -- A step has the text of the one that covers it, and of the one that it adds predicates to.
  have trail_eq : ∀ {last step : Step} {path : List Step}, last.isDots = false →
      step.isDots = false → step.text = last.text →
        trail (step :: path) = trail [last] ++ trail path := by
    intro last step path last_ordinary step_ordinary text_eq
    rw [trail_singleton last_ordinary, ← text_eq, ← trail_singleton step_ordinary, ← trail_append]
    rfl
  induction context, path using contextual_induction with
  | no_context path =>
    rw [contextualSteps_nil_left]
    cases path with
    | nil => exact divides_stay [] [] []
    | cons step path =>
      exact ⟨[], [], [], step :: path, rfl, rfl, rfl, by simp, isParent_of_mem_head? path_ordinary,
        rfl⟩
  | no_path last context =>
    rw [contextualSteps_nil_right, orStay_eq_self (by simp), ← List.append_nil (List.replicate _ _)]
    exact divides_backs [] List.length_replicate (isParent_of_mem_backs _) (by simp)
  | covered covering context step path covered ih =>
    -- The step of the context is kept in place of the one that it covers.
    rw [contextualSteps_of_isCoveredBy covered, trail_eq (context_ordinary covering (by simp))
      (path_ordinary step (by simp)) (Step.of_isCoveredBy covered).1]
    exact (ih (fun other mem => context_ordinary other (List.mem_cons_of_mem covering mem))
      fun other mem => path_ordinary other (List.mem_cons_of_mem step mem)).cons covering
  | narrows last context step path uncovered narrows =>
    rw [contextualSteps_of_narrows uncovered narrows, trail_eq (context_ordinary last (by simp))
      (path_ordinary step (by simp)) (Step.narrows_eq_ok_true_iff.1 narrows).text_eq]
    cases context with
    | nil => exact divides_stay [last] path (step.added last)
    | cons next context =>
      -- The last step back carries the predicates that the path adds to what is kept.
      dsimp only
      rw [List.append_cons]
      refine divides_backs [last] (by simp) (fun other mem => ?_) (isParent_of_mem_head? fun other mem =>
        path_ordinary other (List.mem_cons_of_mem step mem))
      rcases List.mem_append.1 mem with mem | mem
      · exact isParent_of_mem_backs _ other mem
      · rw [List.mem_singleton.1 mem]
        rfl
  | leaves last context step path uncovered narrows =>
    rw [contextualSteps_of_not_narrows uncovered narrows]
    exact divides_backs [] List.length_replicate (isParent_of_mem_backs _)
      (isParent_of_mem_head? path_ordinary)

/-- **Joining a path in a context to the context gives the path back.** For a context and a path
without steps of dots, where the context has no references to variables, the steps back of the
contextual path are all cancelled, and the joined path leads along the texts of the path, dots
aside. -/
theorem join_contextualize {context path : Text} {contextSteps pathSteps : List Step}
    (context_eq : steps context = .ok contextSteps) (path_eq : steps path = .ok pathSteps)
    (context_no_ogham : oghamSpace ∉ context) (path_no_ogham : oghamSpace ∉ path)
    (context_ordinary : ∀ step ∈ contextSteps, step.isDots = false ∧ step.isVariable = false)
    (path_ordinary : ∀ step ∈ pathSteps, step.isDots = false) :
    ∃ relative result resultSteps, contextualize context path = .ok relative ∧
      join context relative = .ok result ∧ steps result = .ok resultSteps ∧
        (resultSteps.map (·.text)).filter (· ≠ ['.']) = pathSteps.map (·.text) := by
  have context_readable := readable_of_steps context_eq context_no_ogham
  have path_readable := readable_of_steps path_eq path_no_ogham
  have context_blank := not_isBlank_of_steps context_eq context_no_ogham
  have context_ne : context ≠ [] := by
    rintro rfl
    simp [Text.isBlank] at context_blank
  obtain ⟨contextual_ne, contextual_readable⟩ :=
    readable_contextualSteps contextSteps path_readable
  have computed := contextualize_eq context_eq path_eq context_ne path_readable
  have relative_eq := steps_intercalate contextual_ne contextual_readable
  have relative_blank := not_isBlank_of_steps relative_eq (no_ogham_intercalate contextual_readable)
  obtain ⟨kept, left, backs, onward, divided, contextual_eq, length, parents, no_parent, trail_eq⟩ :=
    divides_contextualSteps (fun step mem => (context_ordinary step mem).1) path_ordinary
  -- The steps back meet exactly those steps of the context that are left.
  have cancelled : cancel contextSteps.reverse (contextualSteps contextSteps pathSteps) =
      some (kept.reverse, onward) := by
    rw [contextual_eq, divided, List.reverse_append, cancel_append (by simpa using length) ?_ parents]
    · exact cancel_eq_self no_parent _
    · intro step mem
      have ordinary := context_ordinary step (by rw [divided]; simp [List.mem_reverse.1 mem])
      simp [isBarrier, ordinary]
  obtain ⟨result, joined, result_eq⟩ := exists_join context_eq relative_eq context_blank
    relative_blank cancelled fun step mem => by
      rw [List.reverse_reverse] at mem
      rcases List.mem_append.1 mem with mem | mem
      · exact context_readable step (by rw [divided]; simp [mem])
      · exact contextual_readable step (by rw [contextual_eq]; simp [mem])
  rw [List.reverse_reverse] at result_eq
  refine ⟨_, result, _, computed, joined, result_eq, ?_⟩
  rw [← trail_eq_map path_ordinary, ← trail_eq, ← trail_orStay, ← trail_map_unfiltered]
  rfl

/-- A path that adds a predicate in the middle of its context and then leads elsewhere is joined to
the context again without the predicate. -/
theorem join_contextualize_of_narrowing : ∃ (contextSteps pathSteps : List Step) (relative result :
    Text) (resultSteps : List Step),
    steps "/a/b/c".toList = .ok contextSteps ∧ steps "/a/b[x = 1]/$d".toList = .ok pathSteps ∧
      contextualize "/a/b/c".toList "/a/b[x = 1]/$d".toList = .ok relative ∧
      relative = "..[x = 1]/$d".toList ∧ join "/a/b/c".toList relative = .ok result ∧
      steps result = .ok resultSteps ∧ result = "a/b/$d".toList ∧
      (resultSteps.map (·.text)).filter (· ≠ ['.']) = ["a".toList, "b".toList, "$d".toList] := by
  have context_eq : steps "/a/b/c".toList = .ok [⟨"a".toList, [], by decide +kernel, by decide⟩,
      ⟨"b".toList, [], by decide +kernel, by decide⟩,
      ⟨"c".toList, [], by decide +kernel, by decide⟩] := by decide +kernel
  have path_eq : steps "/a/b[x = 1]/$d".toList = .ok
      [⟨"a".toList, [], by decide +kernel, by decide⟩,
        ⟨"b".toList, ["x = 1".toList], by decide +kernel, by decide⟩,
        ⟨"$d".toList, [], by decide +kernel, by decide⟩] := by decide +kernel
  obtain ⟨relative, result, resultSteps, computed, joined, result_eq, texts⟩ :=
    join_contextualize context_eq path_eq (by decide +kernel) (by decide +kernel)
      (by decide +kernel) (by decide +kernel)
  have relative_eq : contextualize "/a/b/c".toList "/a/b[x = 1]/$d".toList =
      .ok "..[x = 1]/$d".toList := by decide +kernel
  obtain rfl := Except.ok.inj (relative_eq.symm.trans computed)
  have joined_eq : join "/a/b/c".toList "..[x = 1]/$d".toList = .ok "a/b/$d".toList := by
    decide +kernel
  exact ⟨_, _, _, result, resultSteps, context_eq, path_eq, computed, rfl, joined, result_eq,
    Except.ok.inj (joined.symm.trans joined_eq), texts⟩

end Path

end LocationPath
