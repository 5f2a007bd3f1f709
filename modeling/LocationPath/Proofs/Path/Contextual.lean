import LocationPath.Proofs.Decomposition.Joined
import LocationPath.Proofs.Step.Inclusion
import Mathlib.Data.List.Basic

/-! # The steps of a contextualized path

A path in a context is put together as a text. Its steps are known without looking at the text:
steps back for what the context has more, the added predicates on a dot or on the last step back,
and the rest of the path.

Main definitions: `Path.coveredLength`, `Path.sharedLength` and `Path.contextualSteps`. Main result:
`Path.exists_contextualize`. -/

namespace LocationPath

/-! ## Steps of dots -/

/-- The step that stays where it is, with predicates. -/
def Step.stay (predicates : List Text) : Step := ⟨['.'], predicates, by decide +kernel, by decide⟩

/-- The step back, with predicates. -/
def Step.back (predicates : List Text) : Step :=
  ⟨['.', '.'], predicates, by decide +kernel, by decide⟩

/-- The predicates of a step that a context step lacks. -/
def Step.added (step context : Step) : List Text :=
  step.predicates.filter fun predicate => !context.predicates.contains predicate

/-- The step that stays can be read back if its predicates can. -/
theorem Step.readable_stay {predicates : List Text}
    (isExpression : ∀ predicate ∈ predicates, predicate.IsExpression)
    (no_ogham : ∀ predicate ∈ predicates, oghamSpace ∉ predicate) :
    (Step.stay predicates).Readable := by
  have no_dots : oghamSpace ∉ ['.'] := by decide +kernel
  exact ⟨.self ⟨0, 1⟩, ⟨.mark .dot '.' 0 (by simp [Lexeme.symbols]) (by simp), rfl⟩, isExpression,
    Step.not_mem_toText no_dots no_ogham (by decide +kernel)⟩

/-- The step back can be read back if its predicates can. -/
theorem Step.readable_back {predicates : List Text}
    (isExpression : ∀ predicate ∈ predicates, predicate.IsExpression)
    (no_ogham : ∀ predicate ∈ predicates, oghamSpace ∉ predicate) :
    (Step.back predicates).Readable := by
  have no_dots : oghamSpace ∉ ['.', '.'] := by decide +kernel
  have spelled : Lexeme.dots.Spelled false '.' ['.'] := .symbol (by simp [Lexeme.symbols])
  exact ⟨.parent ⟨0, 2⟩, ⟨spelled.tokenized (by simp) 0, rfl⟩, isExpression,
    Step.not_mem_toText no_dots no_ogham (by decide +kernel)⟩

/-- What is not in the text of a step is not in its predicates. -/
theorem Step.ReadsAs.predicates_no_ogham {step : Step} {front : Front} (h : step.ReadsAs front) :
    ∀ predicate ∈ step.predicates, oghamSpace ∉ predicate := by
  intro predicate mem ogham
  refine h.no_ogham (List.mem_append_right _ (List.mem_flatMap.2 ⟨predicate, mem, ?_⟩))
  simp [Text.between, ogham]

/-- The predicates that a readable step adds can be read back on dots. -/
theorem Step.Readable.added {step : Step} (h : step.Readable) (context : Step) :
    (Step.stay (step.added context)).Readable ∧ (Step.back (step.added context)).Readable := by
  obtain ⟨front, reads⟩ := h
  have subset : ∀ predicate ∈ step.added context, predicate ∈ step.predicates :=
    fun predicate mem => (List.mem_filter.1 mem).1
  have expressions : ∀ predicate ∈ step.added context, predicate.IsExpression :=
    fun predicate mem => reads.isExpression predicate (subset predicate mem)
  have no_ogham : ∀ predicate ∈ step.added context, oghamSpace ∉ predicate :=
    fun predicate mem => reads.predicates_no_ogham predicate (subset predicate mem)
  exact ⟨Step.readable_stay expressions no_ogham, Step.readable_back expressions no_ogham⟩

/-! ## The ends of a step -/

/-- The text of a readable step does not end with a slash. -/
theorem Step.ReadsAs.getLast?_ne_slash {step : Step} {front : Front} (h : step.ReadsAs front) :
    step.toText.getLast? ≠ some '/' := by
  obtain ⟨earlier, token, last_eq, ends⟩ := front.exists_last
  have own := h.spells.tokenized.getLast?_ne_slash fun last mem => by
    rw [last_eq, List.getLast?_concat] at mem
    exact Option.mem_some.1 mem ▸ ends
  obtain none | ⟨others, last, some⟩ := List.eq_nil_or_concat' step.predicates
  · rw [toText, predicateText, none]
    simpa using own
  · have toText_eq : step.toText =
        step.text ++ (others.flatMap (Text.between '[' ']') ++ '[' :: last) ++ [']'] := by
      simp [toText, predicateText, some, Text.between]
    rw [toText_eq, List.getLast?_concat]
    simp

/-! ## Slashes between steps -/

namespace Text

/-- A text that starts with something else than a mark loses nothing. -/
theorem dropLeading_eq_self {mark : Char} {text : Text} (h : text.head? ≠ some mark) :
    text.dropLeading mark = text := by
  rw [dropLeading, List.dropWhile_eq_self_iff]
  intro lt
  rw [List.head?_eq_getElem?, List.getElem?_eq_getElem lt] at h
  simpa using h

end Text

/-- Texts between slashes are the first ones in front of slashes and the others. -/
theorem intercalate_slash_append {first rest : List Text} (ne : rest ≠ []) :
    ['/'].intercalate (first ++ rest) = first.flatMap (· ++ ['/']) ++ ['/'].intercalate rest := by
  induction first with
  | nil => rfl
  | cons text first ih =>
    obtain ⟨second, more, eq⟩ := List.exists_cons_of_ne_nil (List.append_ne_nil_of_right_ne_nil first ne)
    rw [List.cons_append, eq, List.intercalate_cons_cons, ← eq, ih]
    simp

/-- Readable steps between slashes neither start nor end with a slash. -/
theorem intercalate_ends {steps : List Step} (readable : ∀ step ∈ steps, step.Readable) :
    (['/'].intercalate (steps.map Step.toText)).head? ≠ some '/' ∧
      (['/'].intercalate (steps.map Step.toText)).getLast? ≠ some '/' := by
  constructor
  · cases steps with
    | nil => simp [List.intercalate]
    | cons first rest =>
      obtain ⟨front, reads⟩ := readable first (by simp)
      obtain ⟨c, more, text_eq, -, no_slash⟩ := reads.exists_head
      rw [List.map_cons, intercalate_slash, text_eq]
      simpa using no_slash
  · obtain rfl | ⟨others, last, rfl⟩ := List.eq_nil_or_concat' steps
    · simp [List.intercalate]
    · obtain ⟨front, reads⟩ := readable last (by simp)
      obtain ⟨c, more, text_eq, -, -⟩ := reads.exists_head
      have no_slash := reads.getLast?_ne_slash
      rw [List.map_append, intercalate_slash_append (by simp), List.map_singleton]
      simp only [List.intercalate, List.intersperse_singleton, List.flatten_singleton]
      rw [List.getLast?_append, text_eq, List.getLast?_cons]
      rw [text_eq, List.getLast?_cons] at no_slash
      simpa using no_slash

/-- A path without any steps is a dot. -/
def orStay : List Step → List Step
  | [] => [.stay []]
  | steps => steps

/-- Where there are steps, no dot is put in their place. -/
theorem orStay_eq_self {steps : List Step} (ne : steps ≠ []) : orStay steps = steps := by
  cases steps with
  | nil => exact absurd rfl ne
  | cons step steps => rfl

/-- Where the steps of a path can be read back, so can those of the path with a dot in place of no
steps, of which there is one at least. -/
theorem readable_orStay {steps : List Step} (readable : ∀ step ∈ steps, step.Readable) :
    orStay steps ≠ [] ∧ ∀ step ∈ orStay steps, step.Readable := by
  cases steps with
  | nil =>
    refine ⟨by simp [orStay], fun step mem => ?_⟩
    exact (List.mem_singleton.1 mem) ▸ Step.readable_stay (by simp) (by simp)
  | cons first rest => exact ⟨by simp [orStay], readable⟩

/-- Readable steps between slashes are no empty text if there are any. -/
theorem intercalate_ne_nil {steps : List Step} (ne : steps ≠ [])
    (readable : ∀ step ∈ steps, step.Readable) : ['/'].intercalate (steps.map Step.toText) ≠ [] := by
  obtain ⟨first, rest, rfl⟩ := List.exists_cons_of_ne_nil ne
  obtain ⟨front, reads⟩ := readable first (by simp)
  obtain ⟨c, more, text_eq, -, -⟩ := reads.exists_head
  rw [List.map_cons, intercalate_slash, text_eq]
  simp

/-- Texts in front of slashes are those between slashes and the slash behind the last one. -/
theorem flatMap_slash_eq {texts : List Text} (ne : texts ≠ []) :
    texts.flatMap (· ++ ['/']) = ['/'].intercalate texts ++ ['/'] := by
  obtain ⟨others, last, rfl⟩ := (List.eq_nil_or_concat' texts).resolve_left ne
  rw [intercalate_slash_append (by simp), List.flatMap_append]
  simp [List.intercalate]

namespace Path

/-- Steps are readable behind steps back. -/
theorem readable_backs {count : Nat} {steps : List Step}
    (readable : ∀ step ∈ steps, step.Readable) :
    ∀ step ∈ List.replicate count (.back []) ++ steps, step.Readable := by
  intro step mem
  obtain mem | mem := List.mem_append.1 mem
  · exact (List.eq_of_mem_replicate mem) ▸ Step.readable_back (by simp) (by simp)
  · exact readable step mem

/-- The steps back are written in front of slashes. -/
theorem backs_eq (context : List Step) : (context.flatMap fun _ => ['.', '.', '/']) =
    ((List.replicate context.length (Step.back [])).map Step.toText).flatMap (· ++ ['/']) := by
  induction context with
  | nil => rfl
  | cons step context ih =>
    rw [List.flatMap_cons, ih]
    rfl

/-- What goes on from the common node is the rest of the steps between slashes. -/
theorem onward_eq (start : Option Step) {path : List Step}
    (readable : ∀ step ∈ start.toList ++ path, step.Readable) :
    Text.dropLeading '/'
        (start.elim [] Step.toText ++ path.flatMap fun step => '/' :: step.toText) =
      ['/'].intercalate ((start.toList ++ path).map Step.toText) := by
  have kept := Text.dropLeading_eq_self (intercalate_ends readable).1
  cases start with
  | some first =>
    simp only [Option.toList_some, List.singleton_append, List.map_cons, intercalate_slash,
      List.flatMap_map] at kept ⊢
    exact kept
  | none =>
    cases path with
    | nil => rfl
    | cons first rest =>
      -- Without a start the slash in front of the first step is dropped.
      simp only [Option.toList_none, List.nil_append, List.map_cons, intercalate_slash,
        List.flatMap_map] at kept ⊢
      show Text.dropLeading '/' ('/' :: (first.toText ++ _)) = _
      rw [Text.dropLeading, List.dropWhile_cons_of_pos rfl]
      exact kept

/-- Steps in front of slashes and others between slashes are all of them between slashes, but for
the slash behind the first ones if there are no others. -/
theorem dropTrailing_eq {first rest : List Step}
    (readable : ∀ step ∈ first ++ rest, step.Readable) :
    Text.dropTrailing '/' ((first.map Step.toText).flatMap (· ++ ['/']) ++
        ['/'].intercalate (rest.map Step.toText)) =
      ['/'].intercalate ((first ++ rest).map Step.toText) := by
  have kept := Text.dropTrailing_eq_self (intercalate_ends readable).2
  by_cases none : rest = []
  · subst none
    rw [List.append_nil] at kept ⊢
    have nothing : ['/'].intercalate (([] : List Step).map Step.toText) = [] := rfl
    rw [nothing, List.append_nil]
    by_cases none : first = []
    · subst none
      rfl
    · rw [flatMap_slash_eq (mt List.map_eq_nil_iff.1 none), Text.dropTrailing_append _ (by simp), kept]
  · rw [List.map_append, intercalate_slash_append (mt List.map_eq_nil_iff.1 none)] at kept ⊢
    exact kept

/-- **A relative path is its steps between slashes.** -/
theorem relative_eq (start : Option Step) (context : List Step) {path : List Step}
    (readable : ∀ step ∈ start.toList ++ path, step.Readable) :
    relative (start.elim [] Step.toText) context path =
      ['/'].intercalate ((orStay (List.replicate context.length (.back []) ++
        (start.toList ++ path))).map Step.toText) := by
  have all := @readable_backs context.length _ readable
  unfold relative
  simp only [onward_eq start readable, backs_eq, dropTrailing_eq all]
  by_cases none : List.replicate context.length (Step.back []) ++ (start.toList ++ path) = []
  · rw [none]
    rfl
  · rw [orStay_eq_self none, if_neg]
    simpa using intercalate_ne_nil none all

end Path

/-! ## The steps in a context -/

/-- The empty text is no expression. -/
theorem Node.ne_nil_of_parse {text : Text} {tree : Node} (h : Node.parse text = .ok tree) :
    text ≠ [] := by
  rintro rfl
  obtain ⟨derivation, tokenized, -⟩ := Node.parse_eq_ok_iff_exists.1 h
  obtain ⟨token, rest, eq, -⟩ := derivation.exists_first
  have within := tokenized.within token (by simp [eq])
  have lt := tokenized.inOrder.start_lt_stop token (by simp [eq])
  rw [List.length_nil] at within
  omega

namespace Path

/-- The steps of an accepted text can be read back. -/
theorem readable_of_steps {text : Text} {found : List Step} (h : steps text = .ok found)
    (no_ogham : oghamSpace ∉ text) : ∀ step ∈ found, step.Readable := by
  obtain ⟨info, parsed, eq⟩ := bind_eq_ok_iff.1 h
  obtain rfl := Except.ok.inj eq
  exact PathInfo.readable parsed no_ogham

/-- The empty text has no steps. -/
theorem ne_nil_of_steps {text : Text} {found : List Step} (h : steps text = .ok found) :
    text ≠ [] := by
  obtain ⟨info, parsed, -⟩ := bind_eq_ok_iff.1 h
  obtain ⟨tree, parsed, -⟩ := bind_eq_ok_iff.1 parsed
  exact Node.ne_nil_of_parse parsed

/-- The number of steps at the start of a path that a context covers. -/
def coveredLength : (context path : List Step) → Nat
  | covering :: context, step :: path =>
    if step.isCoveredBy covering then coveredLength context path + 1 else 0
  | _, _ => 0

/-- The number of steps of a path that need not be repeated in a context: those that the context
covers and, if the next step only adds predicates to the next one of the context, this step. -/
def sharedLength (context path : List Step) : Nat :=
  match context[coveredLength context path]?, path[coveredLength context path]? with
  | some last, some step =>
    if step.narrows last = .ok true then coveredLength context path + 1
    else coveredLength context path
  | _, _ => coveredLength context path

/-- The steps of a path in a context. -/
def contextualSteps (context path : List Step) : List Step :=
  match dropCovered context path with
  | (last :: context, step :: path) =>
    if step.narrows last = .ok true then
      match context with
      | [] => .stay (step.added last) :: path
      | _ :: context =>
        List.replicate context.length (.back []) ++ .back (step.added last) :: path
    else List.replicate (last :: context).length (.back []) ++ step :: path
  | (context, path) => orStay (List.replicate context.length (.back []) ++ path)

/-- The covered steps are covered one by one. -/
theorem isCoveredBy_of_lt_coveredLength {context path : List Step} {index : Nat}
    (lt : index < coveredLength context path) : ∃ covering step,
      context[index]? = some covering ∧ path[index]? = some step ∧
        step.isCoveredBy covering = true := by
  fun_induction coveredLength context path generalizing index with
  | case1 covering context step path covered ih =>
    cases index with
    | zero => exact ⟨covering, step, rfl, rfl, covered⟩
    | succ index => exact ih (Nat.lt_of_succ_lt_succ lt)
  | case2 | case3 => exact absurd lt (Nat.not_lt_zero _)

/-- There are no more covered steps at the start than those that are counted. -/
theorem not_isCoveredBy_coveredLength {context path : List Step} {covering step : Step}
    (context_eq : context[coveredLength context path]? = some covering)
    (path_eq : path[coveredLength context path]? = some step) :
    step.isCoveredBy covering = false := by
  fun_induction coveredLength context path with
  | case1 other context first path covered ih => exact ih context_eq path_eq
  | case2 other context first path uncovered =>
    obtain rfl : other = covering := Option.some.inj context_eq
    obtain rfl : first = step := Option.some.inj path_eq
    simpa using uncovered
  | case3 context path not_both =>
    cases context with
    | nil => simp at context_eq
    | cons other context =>
      cases path with
      | nil => simp at path_eq
      | cons first path => exact absurd rfl (not_both other context first path rfl)

/-- What is dropped is what is covered. -/
theorem dropCovered_eq (context path : List Step) : dropCovered context path =
    (context.drop (coveredLength context path), path.drop (coveredLength context path)) := by
  fun_induction coveredLength context path with
  | case1 covering context step path covered ih =>
    rw [dropCovered, if_pos covered, ih]
    rfl
  | case2 covering context step path uncovered =>
    rw [dropCovered, if_neg uncovered]
    rfl
  | case3 context path not_both =>
    cases context with
    | nil => rfl
    | cons covering context =>
      cases path with
      | nil => rfl
      | cons step path => exact absurd rfl (not_both covering context step path rfl)

/-- The step behind the covered ones is not covered. -/
theorem not_isCoveredBy_of_dropCovered {context path context' path' : List Step} {last step : Step}
    (h : dropCovered context path = (last :: context', step :: path')) :
    step.isCoveredBy last = false := by
  rw [dropCovered_eq, Prod.mk.injEq] at h
  refine @not_isCoveredBy_coveredLength context path _ _ ?_ ?_
  · rw [← List.head?_drop, h.1]
    rfl
  · rw [← List.head?_drop, h.2]
    rfl

/-- What is left of a readable path is readable. -/
theorem readable_dropCovered (context : List Step) {path : List Step}
    (readable : ∀ step ∈ path, step.Readable) :
    ∀ step ∈ (dropCovered context path).2, step.Readable := by
  rw [dropCovered_eq]
  exact fun step mem => readable step (List.mem_of_mem_drop mem)

/-- **A path in a context is the text of its steps.** -/
theorem exists_relative (context : List Step) {path : List Step}
    (readable : ∀ step ∈ path, step.Readable) :
    ∃ start context' path',
      divergence (dropCovered context path).1 (dropCovered context path).2 =
          .ok (start, context', path') ∧
        relative start context' path' =
          ['/'].intercalate ((contextualSteps context path).map Step.toText) := by
  have dropped := readable_dropCovered context readable
  unfold contextualSteps
  cases eq : dropCovered context path with
  | mk context' path' =>
    rw [eq] at dropped
    dsimp only at dropped ⊢
    cases context' with
    | nil =>
      -- Nothing is left to go back from.
      have plain := relative_eq none [] dropped
      refine ⟨[], [], path', by cases path' <;> rfl, plain.trans ?_⟩
      cases path' <;> rfl
    | cons last context' =>
      cases path' with
      | nil => exact ⟨[], last :: context', [], rfl, relative_eq none _ (by simp)⟩
      | cons step path' =>
        have uncovered := not_isCoveredBy_of_dropCovered eq
        obtain ⟨stay_added, back_added⟩ := (dropped step (by simp)).added last
        have rest := fun other mem => dropped other (List.mem_cons_of_mem step mem)
        cases narrows : step.narrows last with
        | error error => exact absurd narrows (Step.narrows_ne_error uncovered error)
        | ok answer =>
          rw [divergence.eq_def]
          dsimp only
          rw [narrows]
          cases answer with
          | false =>
            -- The paths part at different steps.
            refine ⟨[], last :: context', step :: path', rfl, ?_⟩
            rw [if_neg (by simp)]
            exact relative_eq none _ dropped
          | true =>
            rw [if_pos rfl]
            cases context' with
            | nil =>
              -- The added predicates are put on a dot.
              refine ⟨_, [], path', rfl, ?_⟩
              exact relative_eq (some (.stay (step.added last))) _ fun other mem => by
                obtain rfl | mem := List.mem_cons.1 mem
                · exact stay_added
                · exact rest other mem
            | cons next context' =>
              -- The added predicates are put on the last step back.
              refine ⟨_, context', path', rfl, ?_⟩
              refine (relative_eq (some (.back (step.added last))) _ fun other mem => ?_).trans ?_
              · obtain rfl | mem := List.mem_cons.1 mem
                · exact back_added
                · exact rest other mem
              · cases context' <;> rfl

/-- The steps of a path in a context can be read back, and there is one at least. -/
theorem readable_contextualSteps (context : List Step) {path : List Step}
    (readable : ∀ step ∈ path, step.Readable) :
    contextualSteps context path ≠ [] ∧
      ∀ step ∈ contextualSteps context path, step.Readable := by
  have dropped := readable_dropCovered context readable
  unfold contextualSteps
  split
  · rename_i last context' step path' eq
    rw [eq] at dropped
    obtain ⟨stay_added, back_added⟩ := (dropped step (by simp)).added last
    have rest : ∀ other ∈ path', other.Readable :=
      fun other mem => dropped other (List.mem_cons_of_mem step mem)
    -- The added predicates stand on a dot or on a step back, and both can be read back with them.
    split
    · split
      · refine ⟨by simp, fun other mem => ?_⟩
        obtain rfl | mem := List.mem_cons.1 mem
        · exact stay_added
        · exact rest other mem
      · refine ⟨by simp, readable_backs fun other mem => ?_⟩
        obtain rfl | mem := List.mem_cons.1 mem
        · exact back_added
        · exact rest other mem
    · exact ⟨by simp, readable_backs dropped⟩
  · rename_i context' path' _ eq
    rw [eq] at dropped
    exact readable_orStay (readable_backs dropped)

/-- A path in a context is written as the contextual steps between slashes. -/
theorem contextualize_eq {context path : Text} {contextSteps pathSteps : List Step}
    (context_eq : steps context = .ok contextSteps) (path_eq : steps path = .ok pathSteps)
    (ne : context ≠ []) (readable : ∀ step ∈ pathSteps, step.Readable) :
    contextualize context path =
      .ok (['/'].intercalate ((contextualSteps contextSteps pathSteps).map Step.toText)) := by
  obtain ⟨start, context', path', diverges, text_eq⟩ :=
    exists_relative contextSteps readable
  rw [contextualize, if_neg (by simpa using ne), context_eq, path_eq, ← text_eq]
  show (divergence _ _ >>= _) = _
  rw [diverges]
  rfl

/-- **A path in a context has the contextual steps.** -/
theorem exists_contextualize {context path : Text} {contextSteps pathSteps : List Step}
    (context_eq : steps context = .ok contextSteps) (path_eq : steps path = .ok pathSteps)
    (ne : context ≠ []) (readable : ∀ step ∈ pathSteps, step.Readable) :
    ∃ result, contextualize context path = .ok result ∧
      steps result = .ok (contextualSteps contextSteps pathSteps) := by
  obtain ⟨steps_ne, steps_readable⟩ := readable_contextualSteps contextSteps readable
  exact ⟨_, contextualize_eq context_eq path_eq ne readable,
    steps_intercalate steps_ne steps_readable⟩

end Path

end LocationPath
