import LocationPath.Proofs.Decomposition.Progress

/-! # How a text can fail to be a path

A text that is no path is malformed, or it holds an integer that is too long to be converted, or one
of its steps is blank. The second is excluded where no run of digits is too long. The third is not:
a name of Ogham spaces is read as a name, but nothing is left of it as the text of a step.

Main definition: `Text.digitRuns`. Main results: `Lexing.exists_long_run` and
`PathInfo.parse_outcomes`. -/

namespace LocationPath

/-! ## Runs of digits -/

/-- The runs of digits of a text, each as long as it goes. Between two neighbouring characters that
are no digits there is an empty one. -/
def Text.digitRuns (text : Text) : List Text := text.splitOnP fun c => !isDigit c

namespace Text

/-- A digit in front makes the first run longer, and anything else starts a new one. -/
theorem digitRuns_cons (c : Char) (text : Text) :
    digitRuns (c :: text) =
      if isDigit c then (digitRuns text).modifyHead (c :: ·) else [] :: digitRuns text := by
  rw [digitRuns, List.splitOnP_cons_eq_if_modifyHead]
  cases isDigit c <;> rfl

/-- The first run is the one that the text starts with. -/
theorem exists_digitRuns_eq (text : Text) :
    ∃ others, digitRuns text = text.takeWhile isDigit :: others := by
  induction text with
  | nil => exact ⟨[], rfl⟩
  | cons c text ih =>
    obtain ⟨others, eq⟩ := ih
    rw [digitRuns_cons, List.takeWhile_cons, eq]
    split
    · exact ⟨others, rfl⟩
    · exact ⟨_, rfl⟩

/-- The digits at any place of a text are no more than those of one of the runs. -/
theorem exists_digitRun_of_suffix {text tail : Text} (suffix : tail <:+ text) :
    ∃ run ∈ text.digitRuns, (tail.takeWhile isDigit).length ≤ run.length := by
  induction text with
  | nil =>
    obtain rfl := List.suffix_nil.1 suffix
    exact ⟨[], List.mem_cons_self, Nat.le_refl _⟩
  | cons c text ih =>
    obtain rfl | suffix := List.suffix_cons_iff.1 suffix
    · -- The digits that the whole text starts with are its first run.
      obtain ⟨others, eq⟩ := exists_digitRuns_eq (c :: text)
      exact ⟨_, eq ▸ List.mem_cons_self, Nat.le_refl _⟩
    · obtain ⟨run, mem, le⟩ := ih suffix
      obtain ⟨others, eq⟩ := exists_digitRuns_eq text
      rw [digitRuns_cons]
      -- A digit in front makes the first run longer and leaves the others; anything else leaves all.
      split
      · rw [eq] at mem ⊢
        obtain rfl | mem := List.mem_cons.1 mem
        · exact ⟨_, List.mem_cons_self, Nat.le_succ_of_le le⟩
        · exact ⟨run, List.mem_cons_of_mem _ mem, le⟩
      · exact ⟨run, List.mem_cons_of_mem _ mem, le⟩

end Text

/-! ## Integers that are too long -/

namespace Scan

/-- A number is too long if it starts with too many digits. -/
theorem of_number?_eq_tooLong {c : Char} {rest : Text} (h : number? c rest = some .tooLong) :
    maxIntegerDigits < ((c :: rest).takeWhile isDigit).length := by
  cases h ▸ findsNumber c rest with
  | tooLong first long =>
    rw [List.takeWhile_cons_of_pos first, List.length_cons]
    omega

/-- What is found is too long only if it is a number that is. -/
theorem of_next_eq_tooLong {afterOperand : Bool} {c : Char} {rest : Text}
    (h : next afterOperand c rest = .tooLong) : number? c rest = some .tooLong := by
  cases h ▸ finds afterOperand c rest with
  | number number => exact number

end Scan

/-- Where the reading of tokens breaks off with an integer that is too long, there is a run of too
many digits. -/
theorem Lexing.exists_long_run {afterOperand : Bool} {start : Nat} {text : Text}
    (h : (ofTextFrom afterOperand start text).ending = .tooLong) :
    ∃ tail, tail <:+ text ∧ maxIntegerDigits < (tail.takeWhile isDigit).length := by
  fun_induction ofTextFrom afterOperand start text with
  | case1 => simp at h
  | case2 afterOperand start c rest layout ih =>
    obtain ⟨tail, suffix, long⟩ := ih h
    exact ⟨tail, suffix.trans (List.suffix_cons _ _), long⟩
  | case3 afterOperand start c rest _ lexeme used next stop later =>
    rename_i ih
    obtain ⟨tail, suffix, long⟩ := ih h
    exact ⟨tail, (suffix.trans (List.drop_suffix _ _)).trans (List.suffix_cons _ _), long⟩
  | case4 afterOperand start c rest _ found =>
    exact ⟨c :: rest, List.suffix_refl _, Scan.of_number?_eq_tooLong (Scan.of_next_eq_tooLong found)⟩
  | case5 => simp at h

/-! ## Outcomes -/

/-- A text without too many digits in a row is rejected as malformed or not at all. -/
theorem Node.exists_malformed_of_error {text : Text} {error : PathError}
    (short : ∀ run ∈ text.digitRuns, run.length ≤ maxIntegerDigits)
    (rejected : Node.parse text = .error error) : ∃ fault, error = .malformed fault := by
  simp only [parse] at rejected
  split at rejected
  · exact ⟨_, (Except.error.inj rejected).symm⟩
  · rename_i ended _
    obtain rfl := Except.error.inj rejected
    cases ending : (Lexing.ofText text).ending with
    | finished =>
      rw [ending] at ended
      contradiction
    | unknown rest position =>
      rw [ending] at ended
      exact ⟨_, (Option.some.inj ended).symm⟩
    | tooLong =>
      -- The digits that are too many lie in one of the runs.
      obtain ⟨tail, suffix, long⟩ := Lexing.exists_long_run ending
      obtain ⟨run, mem, le⟩ := Text.exists_digitRun_of_suffix suffix
      have := short run mem
      omega
  · exact ⟨_, (Except.error.inj rejected).symm⟩
  · contradiction

/-- **What can come of a text in which no run of digits is too long**: a path, a syntax error, or a
blank step; and the last exactly if the text is accepted and one of the steps outside of predicates,
the inner ones included, is a name of Ogham spaces. -/
theorem PathInfo.parse_outcomes {text : Text}
    (short : ∀ run ∈ text.digitRuns, run.length ≤ maxIntegerDigits) :
    ((∃ info, PathInfo.parse text = .ok info) ∨
        (∃ fault, PathInfo.parse text = .error (.malformed fault)) ∨
          PathInfo.parse text = .error .blankStep) ∧
      (PathInfo.parse text = .error .blankStep ↔
        ∃ tree, Node.parse text = .ok tree ∧ ∃ node ∈ tree.walked, node.isOghamStep = true) := by
  cases parsed : Node.parse text with
  | error error =>
    have failed : PathInfo.parse text = .error error := by
      rw [PathInfo.parse, parsed]
      rfl
    obtain ⟨fault, rfl⟩ := Node.exists_malformed_of_error short parsed
    refine ⟨.inr (.inl ⟨fault, failed⟩), ?_⟩
    rw [failed]
    simp
  | ok tree =>
    obtain ⟨ogham, failed⟩ | ⟨clear, info, made⟩ := PathInfo.parse_cases parsed
    · exact ⟨.inr (.inr failed), fun _ => ⟨tree, rfl, ogham⟩, fun _ => failed⟩
    · refine ⟨.inl ⟨info, made⟩, fun failed => ?_, ?_⟩
      · rw [made] at failed
        contradiction
      · rintro ⟨other, eq, node, mem, ogham⟩
        obtain rfl := Except.ok.inj eq
        rw [clear node mem] at ogham
        contradiction

/-- A name of Ogham spaces inside parentheses is a blank step, although the step that is left in the
end has a text. -/
theorem PathInfo.parse_outcomes_of_ogham :
    PathInfo.parse ("(12, ".toList ++ oghamSpace :: "[1])".toList) = .error .blankStep := by
  have short : ∀ run ∈ Text.digitRuns ("(12, ".toList ++ oghamSpace :: "[1])".toList),
      run.length ≤ maxIntegerDigits := by decide +kernel
  have walked : (Node.parse ("(12, ".toList ++ oghamSpace :: "[1])".toList)).map
      (·.walked.any Node.isOghamStep) = .ok true := by decide +kernel
  cases parsed : Node.parse ("(12, ".toList ++ oghamSpace :: "[1])".toList) with
  | error error =>
    rw [parsed] at walked
    contradiction
  | ok tree =>
    rw [parsed] at walked
    obtain ⟨node, mem, ogham⟩ := List.any_eq_true.1 (Except.ok.inj walked)
    exact (PathInfo.parse_outcomes short).2.2 ⟨tree, parsed, node, mem, ogham⟩

/-- A text need not be a path or malformed, even if it holds no digits at all. -/
theorem PathInfo.parse_undocumented :
    ¬ ∀ text : Text, (∀ run ∈ text.digitRuns, run.length ≤ maxIntegerDigits) →
      (∃ info, PathInfo.parse text = .ok info) ∨
        ∃ fault, PathInfo.parse text = .error (.malformed fault) := by
  intro documented
  have blank : (PathInfo.parse [oghamSpace]).map (fun _ => ()) = .error .blankStep := by
    decide +kernel
  obtain ⟨info, made⟩ | ⟨fault, failed⟩ := documented [oghamSpace] (by decide +kernel)
  · rw [made] at blank
    contradiction
  · rw [failed] at blank
    exact PathError.noConfusion (Except.error.inj blank)

end LocationPath
