import LocationPath.Proofs.Grammar.Head

/-! # What is read is derivable

Every reading that succeeds has a derivation: of the tokens that it has taken, and with the value
that it has found. The proofs recurse as the readings do.

Main result: `Reading.sound`. -/

namespace LocationPath

namespace Derivation

/-- A predicate may be put in front of predicates. -/
theorem exists_cons_predicates (first : Derivation .predicate) :
    (later : Derivation .predicates) → ∃ derivation : Derivation .predicates,
      derivation.tokens = first.tokens ++ later.tokens ∧
        derivation.value = first.value :: later.value
  | .noPredicate => ⟨.morePredicates .noPredicate first, by simp [tokens], rfl⟩
  | .morePredicates earlier last => by
    obtain ⟨derivation, tokens_eq, value_eq⟩ := exists_cons_predicates first earlier
    refine ⟨.morePredicates derivation last, ?_, ?_⟩
    · rw [tokens, tokens, tokens_eq, List.append_assoc]
    · rw [value, value, value_eq, List.cons_append]

/-- An argument and a comma may be put in front of arguments. -/
theorem exists_cons_arguments (first : Derivation (.level (.chain .disjunction))) (comma : Span) :
    (later : Derivation .arguments) → ∃ derivation : Derivation .arguments,
      derivation.tokens = first.tokens ++ ⟨.comma, comma⟩ :: later.tokens ∧
        derivation.value = first.value :: later.value
  | .argument only => ⟨.moreArguments (.argument first) comma only, rfl, rfl⟩
  | .moreArguments earlier comma' last => by
    obtain ⟨derivation, tokens_eq, value_eq⟩ := exists_cons_arguments first comma earlier
    refine ⟨.moreArguments derivation comma' last, ?_, ?_⟩
    · rw [tokens, tokens, tokens_eq, List.append_assoc, List.cons_append]
    · rw [value, value, value_eq, List.cons_append]

end Derivation

namespace Reading

open LocationPath.Derivation

/-- Every expression of a level that is read at the start of some tokens is derivable. -/
def Sound (level : Level) (tokens : List Token) : Prop :=
  ∀ (node : Node) (rest : List Token), (expression level tokens).Gives node rest →
    ∃ derivation : Derivation (.level level),
      derivation.tokens ++ rest = tokens ∧ derivation.value = node

section

variable {bound : Nat}
  (sound : ∀ tokens : List Token, tokens.length < bound → ∀ level, Sound level tokens)

include sound

/-- A chain that goes on as it is read is derivable if its operands are. -/
theorem exists_links {limit : Nat} {chain : Chain} {tokens rest : List Token} {node : Node}
    {h : tokens.length < limit} (le : tokens.length ≤ bound)
    (left : Derivation (.level (.chain chain)))
    (gives : (links limit chain left.value tokens h).Gives node rest) :
    ∃ derivation : Derivation (.level (.chain chain)),
      derivation.tokens ++ rest = left.tokens ++ tokens ∧ derivation.value = node := by
  induction length : tokens.length using Nat.strongRecOn generalizing tokens left with
  | ind length_tokens ih =>
    cases tokens with
    | nil =>
      obtain ⟨rfl, rfl⟩ := gives_links_nil.1 gives
      exact ⟨left, rfl, rfl⟩
    | cons op tail =>
      cases joins : chain.joins op.lexeme with
      | false =>
        obtain ⟨rfl, rfl⟩ := (gives_links_of_not_joins joins).1 gives
        exact ⟨left, rfl, rfl⟩
      | true =>
        obtain ⟨right, middle, lt, right_gives, more⟩ := (gives_links_of_joins joins).1 gives
        have shorter := right_gives.length_lt
        rw [List.length_cons] at le length
        obtain ⟨right, rfl, rfl⟩ := sound tail (by omega) chain.operand _ _ right_gives
        -- The link that has been read is the left operand of what follows.
        obtain ⟨derivation, tokens_eq, value_eq⟩ :=
          ih middle.length (by omega) (by omega) (.link left op joins right) more rfl
        exact ⟨derivation, by simp [tokens_eq, Derivation.tokens], value_eq⟩

/-- Predicates that are read are derivable if the expressions in them are. -/
theorem exists_predicates {limit : Nat} {tokens rest : List Token} {nodes : List Node}
    {h : tokens.length < limit} (le : tokens.length ≤ bound)
    (gives : (predicates limit tokens h).Gives nodes rest) :
    ∃ derivation : Derivation .predicates,
      derivation.tokens ++ rest = tokens ∧ derivation.value = nodes := by
  induction length : tokens.length using Nat.strongRecOn generalizing tokens nodes with
  | ind length_tokens ih =>
    by_cases bracket : ∃ span behind, tokens = ⟨.openBracket, span⟩ :: behind
    · obtain ⟨opening, behind, rfl⟩ := bracket
      obtain ⟨inner, closing, after, inner_gives, lt, more, more_gives, rfl⟩ :=
        gives_predicates_open.1 gives
      have closed := inner_gives.length_lt
      rw [List.length_cons] at le length closed
      obtain ⟨inner, eq, rfl⟩ := sound behind (by omega) _ _ _ inner_gives
      -- The grammar adds predicates at the end, but reading finds the first one first.
      obtain ⟨later, rfl, rfl⟩ := ih after.length (by omega) (by omega) more_gives rfl
      obtain ⟨derivation, tokens_eq, value_eq⟩ :=
        exists_cons_predicates (.predicate opening inner closing) later
      refine ⟨derivation, ?_, value_eq⟩
      rw [tokens_eq, ← eq]
      simp [Derivation.tokens]
    · rw [gives_predicates_end] at gives
      · obtain ⟨rfl, rfl⟩ := gives
        exact ⟨.noPredicate, rfl, rfl⟩
      · exact ne_of_mem_head? bracket

/-- Arguments that are read are derivable if each of them is. -/
theorem exists_arguments {tokens rest : List Token} {nodes : List Node} {closing : Span}
    (lt : tokens.length < bound) (gives : (arguments tokens).Gives (nodes, closing) rest) :
    ∃ derivation : Derivation .arguments,
      derivation.tokens ++ ⟨.closeParen, closing⟩ :: rest = tokens ∧ derivation.value = nodes := by
  induction length : tokens.length using Nat.strongRecOn generalizing tokens nodes with
  | ind length_tokens ih =>
    obtain ⟨first, middle, first_gives, next⟩ := gives_arguments.1 gives
    have shorter := first_gives.length_lt
    obtain ⟨first, eq, rfl⟩ := sound tokens lt _ _ _ first_gives
    obtain ⟨comma, behind, more, rfl, more_gives, rfl⟩ | ⟨rfl, rfl⟩ := next
    · rw [List.length_cons] at shorter
      obtain ⟨later, rfl, rfl⟩ := ih behind.length (by omega) (by omega) more_gives rfl
      obtain ⟨derivation, tokens_eq, value_eq⟩ := exists_cons_arguments first comma later
      refine ⟨derivation, ?_, value_eq⟩
      rw [tokens_eq, ← eq, List.append_assoc, List.cons_append]
    · exact ⟨.argument first, eq, rfl⟩

/-- A step that is read is derivable if the expressions in it are. -/
theorem exists_step {tokens rest : List Token} {node : Node} (le : tokens.length ≤ bound)
    (gives : (step tokens).Gives node rest) :
    ∃ derivation : Derivation (.level .step),
      derivation.tokens ++ rest = tokens ∧ derivation.value = node := by
  -- The opening tells which of the cases the reading is in.
  cases found : Opening.ofTokens tokens with
  | error error =>
    rw [step] at gives
    split at gives
    · exact absurd gives not_gives_error
    all_goals simp_all
  | ok pair =>
    obtain ⟨opening, behind⟩ := pair
    have begins := Opening.begins_of_ofTokens found
    have shorter := Opening.length_lt_of_ofTokens found
    cases opening with
    | head head =>
      obtain ⟨lt, conditions, behind_gives, rfl⟩ := (gives_step_head found).1 gives
      obtain ⟨conditions, eq, rfl⟩ := exists_predicates sound (by omega) behind_gives
      exact begins conditions rest eq
    | group paren =>
      obtain ⟨inner, closing, after, inner_gives, lt, conditions, behind_gives, rfl⟩ :=
        (gives_step_group found).1 gives
      have closed := inner_gives.length_lt
      rw [List.length_cons] at closed
      obtain ⟨inner, eq, rfl⟩ := sound behind (by omega) _ _ _ inner_gives
      obtain ⟨conditions, rfl, rfl⟩ := exists_predicates sound (by omega) behind_gives
      obtain ⟨derivation, tokens_eq, value_eq⟩ :=
        Opening.begins_primary (.group paren inner closing) _ conditions rest rfl
      refine ⟨derivation, ?_, value_eq⟩
      rw [tokens_eq, ← begins, ← eq]
      simp [Derivation.tokens]
    | call name qualifier function =>
      obtain ⟨values, closing, after, inner_gives, lt, conditions, behind_gives, rfl⟩ :=
        (gives_step_call found).1 gives
      have closed := inner_gives.length_lt
      obtain ⟨values, eq, rfl⟩ := exists_arguments sound (by omega) inner_gives
      obtain ⟨conditions, rfl, rfl⟩ := exists_predicates sound (by omega) behind_gives
      obtain ⟨derived, paren, begins, rfl, rfl, start⟩ := begins
      obtain ⟨derivation, tokens_eq, value_eq⟩ :=
        Opening.begins_primary (.call derived paren values closing) _ conditions rest rfl
      refine ⟨derivation, ?_, ?_⟩
      · rw [tokens_eq, ← begins, ← eq]
        simp [Derivation.tokens]
      · rw [value_eq, Derivation.value, Span.through, Span.through, start]

/-- A negation that is read is derivable if all shorter ones and all unions are. -/
theorem sound_negation {tokens : List Token} (le : tokens.length ≤ bound)
    (union_sound : Sound (.chain .union) tokens) : Sound .negation tokens := by
  intro node rest gives
  by_cases minus : ∃ span behind, tokens = ⟨.minus, span⟩ :: behind
  · obtain ⟨span, behind, rfl⟩ := minus
    obtain ⟨inner, inner_gives, rfl⟩ := gives_minus.1 gives
    obtain ⟨negative, rfl, rfl⟩ := sound behind le _ _ _ inner_gives
    exact ⟨.negated span negative, rfl, rfl⟩
  · rw [gives_negation] at gives
    · obtain ⟨union, rfl, rfl⟩ := union_sound _ _ gives
      exact ⟨.unnegated union, rfl, rfl⟩
    · exact ne_of_mem_head? minus

/-- A path that is read is derivable if all steps between slashes are. -/
theorem sound_path {tokens : List Token} (le : tokens.length ≤ bound)
    (steps_sound : Sound (.chain .steps) tokens) : Sound .path tokens := by
  intro node rest gives
  by_cases slash : ∃ span behind, tokens = ⟨.slash, span⟩ :: behind
  · obtain ⟨span, behind, rfl⟩ := slash
    cases start : Opening.canStart behind with
    | true =>
      obtain ⟨steps, steps_give, rfl⟩ := (gives_absolute start).1 gives
      obtain ⟨steps, rfl, rfl⟩ := sound behind le _ _ _ steps_give
      exact ⟨.absolute span steps, rfl, rfl⟩
    | false =>
      obtain ⟨rfl, rfl⟩ := (gives_root start).1 gives
      exact ⟨.root span, rfl, rfl⟩
  by_cases slashes : ∃ span behind, tokens = ⟨.slashes, span⟩ :: behind
  · obtain ⟨span, behind, rfl⟩ := slashes
    obtain ⟨steps, steps_give, rfl⟩ := gives_anywhere.1 gives
    obtain ⟨steps, rfl, rfl⟩ := sound behind le _ _ _ steps_give
    exact ⟨.anywhere span steps, rfl, rfl⟩
  · rw [gives_path] at gives
    · obtain ⟨steps, rfl, rfl⟩ := steps_sound _ _ gives
      exact ⟨.relative steps, rfl, rfl⟩
    · intro token mem
      exact ⟨ne_of_mem_head? slash token mem, ne_of_mem_head? slashes token mem⟩

/-- All levels are climbed from the steps upward. -/
theorem sound_of_height {tokens : List Token} (le : tokens.length ≤ bound) (height : Nat) :
    ∀ level : Level, level.height = height → Sound level tokens := by
  induction height using Nat.strongRecOn with
  | ind height ih =>
    rintro level rfl
    cases level with
    | chain chain =>
      intro node rest gives
      obtain ⟨first, middle, lt, first_gives, links_give⟩ := gives_chain.1 gives
      obtain ⟨only, eq, rfl⟩ :=
        ih _ chain.height_operand_lt chain.operand rfl _ _ first_gives
      obtain ⟨derivation, tokens_eq, value_eq⟩ :=
        exists_links sound (by omega) (.operand only) links_give
      exact ⟨derivation, by rw [tokens_eq, Derivation.tokens, eq], value_eq⟩
    | negation => exact sound_negation sound le (ih 3 (by decide) _ rfl)
    | path => exact sound_path sound le (ih 1 (by decide) _ rfl)
    | step =>
      intro node rest gives
      exact exists_step sound le (gives_expression_step.1 gives)

end

/-- **What is read is derivable**, for every level. -/
theorem sound (tokens : List Token) (level : Level) : Sound level tokens := by
  induction length : tokens.length using Nat.strongRecOn generalizing tokens level with
  | ind bound ih =>
    exact sound_of_height (fun tokens lt level => ih _ lt tokens level rfl) (Nat.le_of_eq length) _
      level rfl

end Reading

end LocationPath
