import LocationPath.Proofs.Grammar.Outcome
import LocationPath.Proofs.Grammar.Soundness

/-! # What is taken before an error

A reading that finds nothing has still taken only tokens that can be gone on with: some derivation
begins with them. Each place where a reading can stop is completed there, in the shortest way, and
the phrases around it are completed from the inside out.

Main definitions: `Phrase.Viable` and `Phrase.Reaches`. Main result:
`Reading.reaches_of_outcome_eq_none`. -/

namespace LocationPath

/-- Some tokens are **viable**: tokens that a phrase derives begin with them. -/
def Phrase.Viable (phrase : Phrase) (taken : List Token) : Prop :=
  ∃ derivation : Derivation phrase, taken <+: derivation.tokens

/-- Some tokens are viable up to the rest of them. -/
def Phrase.Reaches (phrase : Phrase) (tokens rest : List Token) : Prop :=
  ∃ taken, taken ++ rest = tokens ∧ phrase.Viable taken

namespace Phrase.Reaches

/-- What a phrase begins with is begun by every phrase around it, behind the tokens in front. -/
theorem within {inner outer : Phrase} {behind rest : List Token} (h : inner.Reaches behind rest)
    (front : List Token) (context : ∀ derivation : Derivation inner,
      ∃ (whole : Derivation outer) (later : List Token),
        whole.tokens = front ++ (derivation.tokens ++ later)) :
    outer.Reaches (front ++ behind) rest := by
  obtain ⟨taken, rfl, derivation, more, eq⟩ := h
  obtain ⟨whole, later, whole_eq⟩ := context derivation
  refine ⟨front ++ taken, List.append_assoc .., whole, more ++ later, ?_⟩
  rw [whole_eq, ← eq, List.append_assoc, List.append_assoc]

/-- The beginning of a derivation is viable. -/
theorem of_tokens {phrase : Phrase} (derivation : Derivation phrase) (taken : List Token)
    {later : List Token} (eq : derivation.tokens = taken ++ later) (rest : List Token) :
    phrase.Reaches (taken ++ rest) rest :=
  ⟨taken, rfl, derivation, later, eq.symm⟩

end Phrase.Reaches

/-! ## Heads -/

/-- A node test that is not read is begun up to the error. -/
theorem NodeTest.reaches_of_error {tokens rest : List Token}
    (h : NodeTest.ofTokens tokens = .error rest) : Phrase.nodeTest.Reaches tokens rest := by
  -- Where nothing has been read, any node test would do.
  have nothing (rest : List Token) : Phrase.nodeTest.Reaches rest rest :=
    .of_tokens (.anyTest ⟨0, 0⟩) [] rfl rest
  unfold ofTokens at h
  split at h
  · rename_i first span colon tail
    split at h
    · simp at h
    · simp at h
    · obtain rfl := Except.error.inj h
      exact .of_tokens (.anyQualifiedTest first span colon ⟨0, 0⟩)
        [⟨.name first, span⟩, ⟨.colon, colon⟩] rfl tail
  · simp at h
  · simp at h
  · rename_i label span tail
    -- Either parenthesis may be the token that is missed.
    obtain missing | ⟨⟨opening, inner⟩, opened, inside⟩ := bind_eq_error_iff.1 h
    · obtain rfl := Token.eq_of_expect_error missing
      exact .of_tokens (.typeTest label span ⟨0, 0⟩ ⟨0, 0⟩) [⟨.nodeType label, span⟩] rfl _
    obtain rfl := Token.expect_eq_ok_iff.1 opened
    dsimp only at inside
    split at inside
    · rename_i value literal after
      obtain missing | ⟨closing, -, finished⟩ := bind_eq_error_iff.1 inside
      · obtain rfl := Token.eq_of_expect_error missing
        exact .of_tokens (.typeTestFor label span opening value literal ⟨0, 0⟩)
          [⟨.nodeType label, span⟩, ⟨.openParen, opening⟩, ⟨.literal value, literal⟩] rfl _
      · contradiction
    · obtain missing | ⟨closing, -, finished⟩ := bind_eq_error_iff.1 inside
      · obtain rfl := Token.eq_of_expect_error missing
        exact .of_tokens (.typeTest label span opening ⟨0, 0⟩)
          [⟨.nodeType label, span⟩, ⟨.openParen, opening⟩] rfl _
      · contradiction
  · obtain rfl := Except.error.inj h
    exact nothing _

/-- The name of a variable that is not read is begun up to the error. -/
theorem Opening.reaches_of_variable_error {dollar : Span} {tokens rest : List Token}
    (h : Opening.variableOfTokens dollar tokens = .error rest) :
    Phrase.qualifiedName.Reaches tokens rest := by
  unfold variableOfTokens at h
  split at h
  · rename_i first span colon tail
    split at h
    · simp at h
    · obtain rfl := Except.error.inj h
      exact .of_tokens (.prefixedName first [] span colon ⟨0, 0⟩)
        [⟨.name first, span⟩, ⟨.colon, colon⟩] rfl tail
  · simp at h
  · obtain rfl := Except.error.inj h
    exact .of_tokens (.plainName [] ⟨0, 0⟩) [] rfl _

/-- The opening of a step that is not read is begun up to the error. -/
theorem Opening.reaches_of_error {tokens rest : List Token}
    (h : Opening.ofTokens tokens = .error rest) : (Phrase.level .step).Reaches tokens rest := by
  unfold ofTokens at h
  split at h
  -- What is read in front of the error is put in front of what it begins.
  case h_6 dollar tail =>
    obtain missing | ⟨name, -, finished⟩ := bind_eq_error_iff.1 h
    · exact (reaches_of_variable_error missing).within [⟨.dollar, dollar⟩] fun name =>
        ⟨.filterStep (.filtered (.reference dollar name) .noPredicate), [], rfl⟩
    · contradiction
  case h_13 sign tail =>
    obtain missing | ⟨test, -, finished⟩ := bind_eq_error_iff.1 h
    · exact (NodeTest.reaches_of_error missing).within [⟨.atSign, sign⟩] fun test =>
        ⟨.axisStep (.attributeStep sign test .noPredicate), [], rfl⟩
    · contradiction
  case h_14 axis name mark tail =>
    obtain missing | ⟨test, -, finished⟩ := bind_eq_error_iff.1 h
    · exact (NodeTest.reaches_of_error missing).within [⟨.name axis, name⟩, ⟨.axisMark, mark⟩]
        fun test => ⟨.axisStep (.namedAxisStep axis name mark test .noPredicate), [], rfl⟩
    · contradiction
  case h_15 =>
    obtain missing | ⟨test, -, finished⟩ := bind_eq_error_iff.1 h
    · exact (NodeTest.reaches_of_error missing).within [] fun test =>
        ⟨.axisStep (.testStep test .noPredicate), [], rfl⟩
    · contradiction
  all_goals simp at h

/-! ## Steps with further predicates -/

namespace Derivation

/-- Predicates may be followed by more of them. -/
theorem exists_append_predicates (earlier : Derivation .predicates) :
    (later : Derivation .predicates) → ∃ derivation : Derivation .predicates,
      derivation.tokens = earlier.tokens ++ later.tokens
  | .noPredicate => ⟨earlier, by simp [tokens]⟩
  | .morePredicates later last => by
    obtain ⟨derivation, eq⟩ := exists_append_predicates earlier later
    exact ⟨.morePredicates derivation last, by rw [tokens, tokens, eq, List.append_assoc]⟩

/-- A step may be followed by more predicates. -/
theorem exists_append_step (step : Derivation (.level .step)) (later : Derivation .predicates) :
    ∃ derivation : Derivation (.level .step), derivation.tokens = step.tokens ++ later.tokens := by
  cases step with
  | axisStep step =>
    cases step with
    | testStep test conditions =>
      obtain ⟨more, eq⟩ := exists_append_predicates conditions later
      exact ⟨.axisStep (.testStep test more), by simp [tokens, eq]⟩
    | attributeStep sign test conditions =>
      obtain ⟨more, eq⟩ := exists_append_predicates conditions later
      exact ⟨.axisStep (.attributeStep sign test more), by simp [tokens, eq]⟩
    | namedAxisStep axis name mark test conditions =>
      obtain ⟨more, eq⟩ := exists_append_predicates conditions later
      exact ⟨.axisStep (.namedAxisStep axis name mark test more), by simp [tokens, eq]⟩
    | selfStep dot conditions =>
      obtain ⟨more, eq⟩ := exists_append_predicates conditions later
      exact ⟨.axisStep (.selfStep dot more), by simp [tokens, eq]⟩
    | parentStep dots conditions =>
      obtain ⟨more, eq⟩ := exists_append_predicates conditions later
      exact ⟨.axisStep (.parentStep dots more), by simp [tokens, eq]⟩
  | filterStep step =>
    cases step with
    | filtered base conditions =>
      obtain ⟨more, eq⟩ := exists_append_predicates conditions later
      exact ⟨.filterStep (.filtered base more), by simp [tokens, eq]⟩

end Derivation

/-! ## Expressions -/

namespace Reading

open LocationPath.Derivation

/-- Tokens in which no expression of a level is found are viable up to what is left of them. -/
def Viable (level : Level) (tokens : List Token) : Prop :=
  ∀ rest, outcome (expression level tokens) = (none, rest) →
    (Phrase.level level).Reaches tokens rest

/-- What is found is derived of the tokens that are taken. -/
theorem exists_of_outcome {level : Level} {tokens rest : List Token} {node : Node}
    (h : outcome (expression level tokens) = (some node, rest)) :
    ∃ derivation : Derivation (.level level),
      derivation.tokens ++ rest = tokens ∧ derivation.value = node :=
  sound tokens level node rest (outcome_eq_some_iff.1 h)

/-- An expected token either stands where it should or is missed there. -/
theorem of_expect_andThen_eq_none {lexeme : Lexeme} {tokens rest : List Token} {α : Type}
    {next : Span → List Token → Outcome α}
    (h : (Outcome.of (Token.expect lexeme tokens)).andThen next = (none, rest)) :
    rest = tokens ∨ ∃ span after, tokens = ⟨lexeme, span⟩ :: after ∧ next span after = (none, rest) := by
  cases eq : Token.expect lexeme tokens with
  | error error =>
    rw [Outcome.of_eq_none_iff.2 eq, Outcome.andThen_none] at h
    obtain ⟨-, rfl⟩ := Prod.mk.inj h
    exact .inl (Token.eq_of_expect_error eq)
  | ok pair =>
    obtain ⟨span, after⟩ := pair
    rw [Outcome.of_eq_some_iff.2 eq, Outcome.andThen_some] at h
    exact .inr ⟨span, after, Token.expect_eq_ok_iff.1 eq, h⟩

section

variable {bound : Nat}
  (viable : ∀ tokens : List Token, tokens.length < bound → ∀ level, Viable level tokens)

include viable

/-- A chain that breaks off is viable if its operands are. -/
theorem reaches_of_linked {chain : Chain} {tokens rest : List Token} (le : tokens.length ≤ bound)
    (left : Derivation (.level (.chain chain)))
    (h : linked chain left.value tokens = (none, rest)) :
    (Phrase.level (.chain chain)).Reaches (left.tokens ++ tokens) rest := by
  -- The induction is on what is left; the operands in front of it are gathered in the derivation.
  induction length : tokens.length using Nat.strongRecOn generalizing tokens left with
  | ind length_tokens ih =>
    cases tokens with
    | nil => simp at h
    | cons op tail =>
      cases joins : chain.joins op.lexeme with
      | false => simp [linked_of_not_joins joins] at h
      | true =>
        rw [linked_of_joins joins, Outcome.andThen_eq_none_iff] at h
        rw [List.length_cons] at le length
        rcases h with h | ⟨right, middle, found, h⟩
        · rw [List.append_cons]
          exact (viable tail (by omega) _ _ h).within _ fun right =>
            ⟨.link left op joins right, [], by simp [tokens]⟩
        · have shorter := (outcome_eq_some_iff.1 found).length_lt
          obtain ⟨right, rfl, rfl⟩ := exists_of_outcome found
          have := ih middle.length (by omega) (by omega) (.link left op joins right) h rfl
          rwa [Derivation.tokens, List.append_assoc] at this

/-- Predicates that break off are viable if the expressions in them are. -/
theorem reaches_of_conditions {tokens rest : List Token} (le : tokens.length ≤ bound)
    (h : conditions tokens = (none, rest)) : Phrase.predicates.Reaches tokens rest := by
  induction length : tokens.length using Nat.strongRecOn generalizing tokens with
  | ind length_tokens ih =>
    by_cases bracket : ∃ span behind, tokens = ⟨.openBracket, span⟩ :: behind
    · obtain ⟨opening, behind, rfl⟩ := bracket
      rw [conditions_open, Outcome.andThen_eq_none_iff] at h
      rw [List.length_cons] at le length
      rcases h with h | ⟨inner, middle, found, h⟩
      · exact (viable behind (by omega) _ _ h).within [⟨.openBracket, opening⟩] fun inner =>
          ⟨.morePredicates .noPredicate (.predicate opening inner ⟨0, 0⟩), _, rfl⟩
      · have shorter := (outcome_eq_some_iff.1 found).length_lt
        obtain ⟨inner, rfl, rfl⟩ := exists_of_outcome found
        rcases of_expect_andThen_eq_none h with rfl | ⟨closing, after, rfl, further⟩
        · -- The condition is read; only the bracket that closes it is missed.
          exact .of_tokens (.morePredicates .noPredicate (.predicate opening inner ⟨0, 0⟩))
            (⟨.openBracket, opening⟩ :: inner.tokens) rfl _
        · rw [Outcome.finish_eq_none_iff] at further
          rw [List.length_cons] at shorter
          have := ih after.length (by omega) (by omega) further rfl
          have := this.within (⟨.openBracket, opening⟩ :: (inner.tokens ++ [⟨.closeBracket, closing⟩]))
            fun later => by
              obtain ⟨whole, eq, -⟩ :=
                exists_cons_predicates (.predicate opening inner closing) later
              exact ⟨whole, [], by rw [eq, List.append_nil, tokens]⟩
          simpa using this
    · rw [conditions_end] at h
      · simp at h
      · exact ne_of_mem_head? bracket

/-- Arguments that break off are viable if the expressions in them are. -/
theorem reaches_of_arguments {tokens rest : List Token} (lt : tokens.length < bound)
    (h : outcome (arguments tokens) = (none, rest)) : Phrase.arguments.Reaches tokens rest := by
  induction length : tokens.length using Nat.strongRecOn generalizing tokens with
  | ind length_tokens ih =>
    rw [outcome_arguments, Outcome.andThen_eq_none_iff] at h
    rcases h with h | ⟨first, middle, found, h⟩
    · exact (viable tokens lt _ _ h).within [] fun only =>
        ⟨.argument only, [], by simp [Derivation.tokens]⟩
    · have shorter := (outcome_eq_some_iff.1 found).length_lt
      obtain ⟨first, rfl, rfl⟩ := exists_of_outcome found
      unfold furtherArguments at h
      split at h
      · rename_i comma behind
        rw [Outcome.finish_eq_none_iff] at h
        rw [List.length_cons] at shorter
        rw [List.append_cons]
        -- The comma is read, so it is the later arguments that break off.
        refine (ih behind.length (by omega) (by omega) h rfl).within _ fun later => ?_
        obtain ⟨whole, eq, -⟩ := exists_cons_arguments first comma later
        exact ⟨whole, [], by simp [eq]⟩
      · simp at h
      · obtain ⟨-, rfl⟩ := Prod.mk.inj h
        exact .of_tokens (.argument first) first.tokens (List.append_nil _).symm _

/-- A step that breaks off is viable if the expressions in it are. -/
theorem reaches_of_step {tokens rest : List Token} (le : tokens.length ≤ bound)
    (h : outcome (step tokens) = (none, rest)) : (Phrase.level .step).Reaches tokens rest := by
  rw [outcome_step, Outcome.andThen_eq_none_iff] at h
  rcases h with h | ⟨opening, behind, found, h⟩
  · exact Opening.reaches_of_error (Outcome.of_eq_none_iff.1 h)
  · rw [Outcome.of_eq_some_iff] at found
    have begins := Opening.begins_of_ofTokens found
    have shorter := Opening.length_lt_of_ofTokens found
    cases opening with
    | head head =>
      rw [opened, headed, Outcome.finish_eq_none_iff] at h
      obtain ⟨step, rfl, -⟩ := begins .noPredicate behind rfl
      refine (reaches_of_conditions viable (by omega) h).within _ fun later => ?_
      obtain ⟨whole, eq⟩ := exists_append_step step later
      exact ⟨whole, [], by rw [eq, List.append_nil]⟩
    | group paren =>
      obtain rfl := begins
      rw [opened, Outcome.andThen_eq_none_iff] at h
      rw [List.length_cons] at le
      rcases h with h | ⟨inner, middle, found', h⟩
      · exact (viable behind (by omega) _ _ h).within [⟨.openParen, paren⟩] fun inner =>
          ⟨.filterStep (.filtered (.group paren inner ⟨0, 0⟩) .noPredicate), _,
            List.append_nil _⟩
      · have closed := (outcome_eq_some_iff.1 found').length_lt
        obtain ⟨inner, rfl, rfl⟩ := exists_of_outcome found'
        rcases of_expect_andThen_eq_none h with rfl | ⟨closing, after, rfl, further⟩
        · -- The inner expression is read; only the parenthesis that closes it is missed.
          exact .of_tokens (.filterStep (.filtered (.group paren inner ⟨0, 0⟩) .noPredicate))
            (⟨.openParen, paren⟩ :: inner.tokens) (List.append_nil _) _
        · rw [headed, Outcome.finish_eq_none_iff] at further
          rw [List.length_cons] at closed
          have := (reaches_of_conditions viable (by omega) further).within
            (⟨.openParen, paren⟩ :: (inner.tokens ++ [⟨.closeParen, closing⟩])) fun later =>
              ⟨.filterStep (.filtered (.group paren inner closing) later), [], by
                simp [Derivation.tokens]⟩
          simpa using this
    | call place qualifier function =>
      obtain ⟨name, paren, rfl, -⟩ := begins
      rw [opened, Outcome.andThen_eq_none_iff] at h
      rcases h with h | ⟨⟨values, closing⟩, after, found', h⟩
      · -- What is begun of the arguments is completed inside the call, and then the call itself.
        have := (reaches_of_arguments viable (by omega) h).within
          (name.tokens ++ [⟨.openParen, paren⟩]) fun values =>
            ⟨.filterStep (.filtered (.call name paren values ⟨0, 0⟩) .noPredicate),
              [⟨.closeParen, ⟨0, 0⟩⟩], by simp [Derivation.tokens]⟩
        simpa using this
      · have closed := (outcome_eq_some_iff.1 found').length_lt
        obtain ⟨values, rfl, rfl⟩ := exists_arguments (fun tokens _ level => sound tokens level)
          (Nat.lt_succ_self _) (outcome_eq_some_iff.1 found')
        rw [headed, Outcome.finish_eq_none_iff] at h
        have := (reaches_of_conditions viable (by omega) h).within
          (name.tokens ++ ⟨.openParen, paren⟩ :: (values.tokens ++ [⟨.closeParen, closing⟩]))
          fun later => ⟨.filterStep (.filtered (.call name paren values closing) later), [], by
            simp [Derivation.tokens]⟩
        simpa using this

/-- A negation that breaks off is viable if all shorter ones and all unions are. -/
theorem viable_negation {tokens : List Token} (le : tokens.length ≤ bound)
    (union_viable : Viable (.chain .union) tokens) : Viable .negation tokens := by
  intro rest h
  by_cases minus : ∃ span behind, tokens = ⟨.minus, span⟩ :: behind
  · obtain ⟨span, behind, rfl⟩ := minus
    rw [outcome_minus, Outcome.finish_eq_none_iff] at h
    exact (viable behind le _ _ h).within [⟨.minus, span⟩] fun inner =>
      ⟨.negated span inner, [], by simp [Derivation.tokens]⟩
  · rw [outcome_negation] at h
    · exact (union_viable _ h).within [] fun union => ⟨.unnegated union, [], by simp [Derivation.tokens]⟩
    · exact ne_of_mem_head? minus

/-- A path that breaks off is viable if all steps between slashes are. -/
theorem viable_path {tokens : List Token} (le : tokens.length ≤ bound)
    (steps_viable : Viable (.chain .steps) tokens) : Viable .path tokens := by
  intro rest h
  by_cases slash : ∃ span behind, tokens = ⟨.slash, span⟩ :: behind
  · obtain ⟨span, behind, rfl⟩ := slash
    rw [outcome_slash] at h
    split at h
    · rw [Outcome.finish_eq_none_iff] at h
      exact (viable behind le _ _ h).within [⟨.slash, span⟩] fun steps =>
        ⟨.absolute span steps, [], by simp [Derivation.tokens]⟩
    · simp at h
  by_cases slashes : ∃ span behind, tokens = ⟨.slashes, span⟩ :: behind
  · obtain ⟨span, behind, rfl⟩ := slashes
    rw [outcome_slashes, Outcome.finish_eq_none_iff] at h
    exact (viable behind le _ _ h).within [⟨.slashes, span⟩] fun steps =>
      ⟨.anywhere span steps, [], by simp [Derivation.tokens]⟩
  · rw [outcome_path] at h
    · exact (steps_viable _ h).within [] fun steps => ⟨.relative steps, [], by simp [Derivation.tokens]⟩
    · intro token mem
      exact ⟨ne_of_mem_head? slash token mem, ne_of_mem_head? slashes token mem⟩

/-- All levels are climbed from the steps upward. -/
theorem viable_of_height {tokens : List Token} (le : tokens.length ≤ bound) (height : Nat) :
    ∀ level : Level, level.height = height → Viable level tokens := by
  induction height using Nat.strongRecOn with
  | ind height ih =>
    rintro level rfl
    cases level with
    | chain chain =>
      intro rest h
      rw [outcome_chain, Outcome.andThen_eq_none_iff] at h
      rcases h with h | ⟨first, middle, found, h⟩
      · exact (ih _ chain.height_operand_lt chain.operand rfl _ h).within [] fun only =>
          ⟨.operand only, [], by simp [Derivation.tokens]⟩
      -- The first operand is read, and the chain breaks off behind it.
      · have shorter := (outcome_eq_some_iff.1 found).length_lt
        obtain ⟨only, rfl, rfl⟩ := exists_of_outcome found
        exact reaches_of_linked viable (by omega) (.operand only) h
    | negation => exact viable_negation viable le (ih 3 (by decide) _ rfl)
    | path => exact viable_path viable le (ih 1 (by decide) _ rfl)
    | step =>
      intro rest h
      rw [outcome_expression_step] at h
      exact reaches_of_step viable le h

end

/-- **What is taken before an error can be gone on with**, for every level. -/
theorem reaches_of_outcome_eq_none (tokens : List Token) (level : Level) : Viable level tokens := by
  induction length : tokens.length using Nat.strongRecOn generalizing tokens level with
  | ind bound ih =>
    exact viable_of_height (fun tokens lt level => ih _ lt tokens level rfl) (Nat.le_of_eq length) _
      level rfl

end Reading

end LocationPath
