import LocationPath.Proofs.Grammar.Head

/-! # What is derivable is read

Reading finds every derived expression, also where tokens follow it that do not make it longer. The
induction is on the derivation. A left recursive phrase is not read by a call of its own: its parts
are read one by one on the way to what follows, so for such a phrase the induction says how its
tokens prolong a reading that starts behind them.

Main definition: `Derivation.Read`. Main results: `Derivation.read` and
`Derivation.gives_of_stops`. -/

namespace LocationPath

open Reading

namespace Derivation

/-- What reading makes of the tokens of a derivation. -/
def Read : {phrase : Phrase} → Derivation phrase → Prop
  | .level (.chain chain), derivation => ∀ (tokens rest : List Token) (node : Node)
    (out : List Token) (h : rest.length < tokens.length), tokens = derivation.tokens ++ rest →
    chain.operand.Stops rest → (links tokens.length chain derivation.value rest h).Gives node out →
      (expression (.chain chain) tokens).Gives node out
  | .level level, derivation => ∀ rest, level.Stops rest →
    (expression level (derivation.tokens ++ rest)).Gives derivation.value rest
  | .axisStep, derivation | .filter, derivation => ∀ rest, Level.step.Stops rest →
    (step (derivation.tokens ++ rest)).Gives derivation.value rest
  | .predicates, derivation => ∀ (bound : Nat) (rest : List Token) (more : List Node)
    (out : List Token) (h : (derivation.tokens ++ rest).length < bound)
    (h' : rest.length < bound), (predicates bound rest h').Gives more out →
      (predicates bound (derivation.tokens ++ rest) h).Gives (derivation.value ++ more) out
  | .predicate, derivation => ∀ (bound : Nat) (rest : List Token) (more : List Node)
    (out : List Token) (h : (derivation.tokens ++ rest).length < bound)
    (h' : rest.length < bound), (predicates bound rest h').Gives more out →
      (predicates bound (derivation.tokens ++ rest) h).Gives (derivation.value :: more) out
  | .primary, derivation => ∀ (behind : List Token) (conditions : List Node) (rest : List Token),
    Phrase.primary.Stops behind →
    (∀ bound h, (predicates bound behind h).Gives conditions rest) →
      (step (derivation.tokens ++ behind)).Gives
        ((Head.primary derivation.value).withPredicates conditions) rest
  | .arguments, derivation =>
    (∀ (comma closing : Span) (rest : List Token) (more : List Node) (out : List Token),
      (arguments rest).Gives (more, closing) out →
        (arguments (derivation.tokens ++ ⟨.comma, comma⟩ :: rest)).Gives
          (derivation.value ++ more, closing) out) ∧
    ∀ (closing : Span) (out : List Token),
      (arguments (derivation.tokens ++ ⟨.closeParen, closing⟩ :: out)).Gives
        (derivation.value, closing) out
  | .nodeTest, _ | .qualifiedName, _ => True

/-- Behind a chain that nothing makes longer no operator of it is found. -/
theorem gives_links_of_stops {bound : Nat} {chain : Chain} {left : Node} {rest : List Token}
    {h : rest.length < bound} (stops : (Level.chain chain).Stops rest) :
    (links bound chain left rest h).Gives left rest := by
  cases rest with
  | nil => exact gives_links_nil.2 ⟨rfl, rfl⟩
  | cons token rest => exact (gives_links_of_not_joins stops.not_joins).2 ⟨rfl, rfl⟩

/-- An expression that is read as the induction says is read to its end. -/
theorem Read.gives {level : Level} {derivation : Derivation (.level level)}
    (h : derivation.Read) (rest : List Token) (stops : level.Stops rest) :
    (expression level (derivation.tokens ++ rest)).Gives derivation.value rest := by
  cases level with
  | chain chain =>
    obtain ⟨token, tail, eq, -⟩ := derivation.exists_first
    have lt : rest.length < (derivation.tokens ++ rest).length := by
      rw [eq, List.length_append, List.length_cons]
      omega
    exact h _ rest _ _ lt rfl stops.operand (gives_links_of_stops stops)
  | negation | path | step => exact h rest stops

/-- Predicates that nothing makes longer are read to their end. -/
theorem Read.gives_predicates {conditions : Derivation .predicates} (h : conditions.Read)
    {bound : Nat} {rest : List Token} {lt : (conditions.tokens ++ rest).length < bound}
    (stops : Level.step.Stops rest) :
    (predicates bound (conditions.tokens ++ rest) lt).Gives conditions.value rest := by
  have lt' : rest.length < bound := by
    rw [List.length_append] at lt
    omega
  have := h bound rest [] rest lt lt' ((gives_predicates_end (stops_predicates stops)).2 ⟨rfl, rfl⟩)
  rwa [List.append_nil] at this

/-- A head with predicates behind it is read as a step. -/
theorem Read.gives_step {conditions : Derivation .predicates} (h : conditions.Read)
    (tokens : List Token) {rest : List Token} {head : Head} (stops : Level.step.Stops rest)
    (found : Opening.ofTokens tokens = .ok (.head head, conditions.tokens ++ rest)) :
    (step tokens).Gives (head.withPredicates conditions.value) rest :=
  (gives_step_head found).2
    ⟨Opening.length_lt_of_ofTokens found, conditions.value, h.gives_predicates stops, rfl⟩

/-- An argument in front of a comma is read together with the arguments behind it. -/
theorem Read.gives_more {argument : Derivation (.level (.chain .disjunction))} (h : argument.Read)
    {comma closing : Span} {rest out : List Token} {more : List Node}
    (gives : (arguments rest).Gives (more, closing) out) :
    (arguments (argument.tokens ++ ⟨.comma, comma⟩ :: rest)).Gives
      (argument.value :: more, closing) out := by
  have first := h.gives (⟨.comma, comma⟩ :: rest)
    (Chain.stops_operand .sequence ⟨.comma, comma⟩ rfl rest)
  exact gives_arguments.2 ⟨argument.value, _, first, .inl ⟨comma, rest, more, rfl, gives, rfl⟩⟩

/-- An argument in front of a closing parenthesis is read as the last one. -/
theorem Read.gives_last {argument : Derivation (.level (.chain .disjunction))} (h : argument.Read)
    {closing : Span} {out : List Token} :
    (arguments (argument.tokens ++ ⟨.closeParen, closing⟩ :: out)).Gives
      ([argument.value], closing) out := by
  have first := h.gives (⟨.closeParen, closing⟩ :: out) (by simp)
  exact gives_arguments.2 ⟨argument.value, _, first, .inr ⟨rfl, rfl⟩⟩

/-- Every derivation is read. -/
theorem read {phrase : Phrase} (derivation : Derivation phrase) : derivation.Read := by
  induction derivation with
  | operand only ih =>
    rintro tokens rest node out lt rfl stops gives
    exact gives_chain.2 ⟨only.value, rest, lt, ih.gives _ stops, gives⟩
  | link left op joins right ihl ihr =>
    rintro ts rest node out lt eq stops gives
    rw [tokens, List.append_assoc, List.cons_append] at eq
    -- The left side is not read on its own: what is read from the operator on prolongs it.
    refine ihl ts (op :: (right.tokens ++ rest)) node out ?_ eq (Chain.stops_operand _ _ joins _) ?_
    · obtain ⟨token, tail, first, -⟩ := left.exists_first
      rw [eq, first]
      simp only [List.length_append, List.length_cons]
      omega
    · exact (gives_links_of_joins joins).2 ⟨right.value, rest, lt, ihr.gives _ stops, gives⟩
  | negated minus negative ih =>
    intro rest stops
    exact gives_minus.2 ⟨negative.value, ih rest stops, rfl⟩
  | unnegated union ih =>
    intro rest stops
    rw [tokens, gives_negation]
    · exact ih.gives _ (stops.of_height_le (by decide))
    · -- A minus sign in front would be read as the negation of what follows.
      intro token mem minus
      have opens := union.opens_of_mem_head?_append (by simp) token mem
      rw [minus] at opens
      contradiction
  | relative steps ih =>
    intro rest stops
    rw [tokens, gives_path]
    · exact ih.gives _ (stops.of_height_le (by decide))
    · intro token mem
      have opens := steps.opens_of_mem_head?_append (by simp) token mem
      constructor
      · intro slash
        rw [slash] at opens
        contradiction
      · intro slashes
        rw [slashes] at opens
        contradiction
  | root slash =>
    intro rest stops
    refine (gives_root ?_).2 ⟨rfl, rfl⟩
    -- What can start a step would be read as steps behind the root.
    cases rest with
    | nil => rfl
    | cons token rest =>
      show Opening.canStart (token :: rest) = false
      rw [Opening.canStart_cons]
      exact Level.startsStep_of_extends ((Level.stops_cons ..).1 stops)
  | absolute slash steps ih =>
    intro rest stops
    refine (gives_absolute ?_).2 ⟨steps.value, ih.gives _ (stops.of_height_le (by decide)), rfl⟩
    obtain ⟨token, tail, eq, opens⟩ := steps.exists_first
    show Opening.canStart (steps.tokens ++ rest) = true
    rw [eq, List.cons_append, Opening.canStart_cons]
    rwa [← Level.opens_steps]
  | anywhere slashes steps ih =>
    intro rest stops
    exact gives_anywhere.2 ⟨steps.value, ih.gives _ (stops.of_height_le (by decide)), rfl⟩
  | axisStep step ih | filterStep step ih =>
    intro rest stops
    exact gives_expression_step.2 (ih rest stops)
  | testStep test conditions _ ih =>
    intro rest stops
    have := ih.gives_step _ stops (Opening.ofTokens_testStep test stops)
    rw [tokens, value, List.append_assoc]
    rwa [Head.withPredicates, Head.spanWith_eq] at this
  | attributeStep sign test conditions _ ih =>
    intro rest stops
    have := ih.gives_step _ stops (Opening.ofTokens_attributeStep sign test stops)
    rw [tokens, value, List.cons_append, List.append_assoc]
    rwa [Head.withPredicates, Head.spanWith_eq] at this
  | namedAxisStep axis name mark test conditions _ ih =>
    intro rest stops
    have := ih.gives_step _ stops (Opening.ofTokens_namedAxisStep axis name mark test stops)
    rw [tokens, value, List.cons_append, List.cons_append, List.append_assoc]
    rwa [Head.withPredicates, Head.spanWith_eq] at this
  | selfStep dot conditions ih =>
    intro rest stops
    have := ih.gives_step (⟨.dot, dot⟩ :: (conditions.tokens ++ rest)) stops rfl
    rw [tokens, value]
    rwa [Head.withPredicates, Head.spanWith_eq] at this
  | parentStep dots conditions ih =>
    intro rest stops
    have := ih.gives_step (⟨.dots, dots⟩ :: (conditions.tokens ++ rest)) stops rfl
    rw [tokens, value]
    rwa [Head.withPredicates, Head.spanWith_eq] at this
  | nameTest | anyTest | anyQualifiedTest | typeTest | typeTestFor | plainName | prefixedName =>
    trivial
  | noPredicate => exact fun bound rest more out h h' gives => gives
  | morePredicates earlier last ihe ihl =>
    intro bound rest more out h h' gives
    have lt : (last.tokens ++ rest).length < bound := by
      simp [tokens] at h ⊢
      omega
    have := ihe bound (last.tokens ++ rest) (last.value :: more) out
      (by simpa [tokens] using h) lt (ihl bound rest more out lt h' gives)
    simpa [tokens, value] using this
  | predicate opening condition closing ih =>
    intro bound rest more out h h' gives
    have inner := ih.gives (⟨.closeBracket, closing⟩ :: rest) (by simp)
    simp only [tokens, List.cons_append, List.append_assoc, List.nil_append]
    exact gives_predicates_open.2 ⟨condition.value, closing, rest, inner, h', more, gives, rfl⟩
  | filtered base conditions ihb ihc =>
    intro rest stops
    have := ihb (conditions.tokens ++ rest) conditions.value rest
      (lexeme_ne_behind_head conditions stops _ rfl (by simp)) fun bound h => ihc.gives_predicates stops
    rw [tokens, value, List.append_assoc]
    simpa only [Head.withPredicates, Head.spanWith_eq, Head.span] using this
  | reference dollar name =>
    intro behind conditions rest stops gives
    have found := Opening.ofTokens_reference dollar name stops
    exact (gives_step_head found).2
      ⟨Opening.length_lt_of_ofTokens found, conditions, gives _ _, rfl⟩
  | group opening inner closing ih =>
    intro behind conditions rest stops gives
    have found := Opening.ofTokens_group opening inner (⟨.closeParen, closing⟩ :: behind)
    have lt := Opening.length_lt_of_ofTokens found
    rw [show (group opening inner closing).tokens ++ behind = ⟨.openParen, opening⟩ ::
      (inner.tokens ++ ⟨.closeParen, closing⟩ :: behind) by simp [tokens]]
    refine (gives_step_group found).2 ⟨inner.value, closing, behind, ih.gives _ (by simp), ?_,
      conditions, gives _ _, rfl⟩
    simp at lt ⊢
    omega
  | emptySequence | text | float | integer =>
    intro behind conditions rest stops gives
    refine (gives_step_head rfl).2 ⟨?_, conditions, gives _ _, rfl⟩
    rw [List.length_append]
    exact Nat.lt_add_of_pos_left (Nat.succ_pos _)
  | emptyCall name opening closing =>
    intro behind conditions rest stops gives
    have found := Opening.ofTokens_emptyCall name opening closing behind
    rw [tokens, List.append_assoc]
    show (step (name.tokens ++ ⟨.openParen, opening⟩ :: ⟨.closeParen, closing⟩ :: behind)).Gives _ _
    exact (gives_step_head found).2
      ⟨Opening.length_lt_of_ofTokens found, conditions, gives _ _, rfl⟩
  | call name opening arguments closing _ ih =>
    intro behind conditions rest stops gives
    obtain ⟨place, start, found⟩ := Opening.ofTokens_call name opening arguments
      (⟨.closeParen, closing⟩ :: behind)
    have lt := Opening.length_lt_of_ofTokens found
    rw [show (call name opening arguments closing).tokens ++ behind = name.tokens ++
      ⟨.openParen, opening⟩ :: (arguments.tokens ++ ⟨.closeParen, closing⟩ :: behind) by
        simp [tokens]]
    refine (gives_step_call found).2 ⟨arguments.value, closing, behind, ih.2 closing _, ?_,
      conditions, gives _ _, ?_⟩
    · simp at lt ⊢
      omega
    · rw [value, Span.through, Span.through, start]
  | argument only ih => exact ⟨fun _ _ _ _ _ gives => ih.gives_more gives, fun _ _ => ih.gives_last⟩
  | moreArguments earlier comma last ihe ihl =>
    constructor
    · intro comma' closing rest more out gives
      rw [tokens, value, List.append_assoc, List.append_assoc, List.cons_append]
      exact ihe.1 comma closing _ _ out (ihl.gives_more gives)
    · intro closing out
      rw [tokens, value, List.append_assoc, List.cons_append]
      exact ihe.1 comma closing _ _ out ihl.gives_last

/-- **What is derivable is read**: a derived expression in front of tokens that do not make it
longer is read as what its productions build. -/
theorem gives_of_stops {level : Level} (derivation : Derivation (.level level)) {rest : List Token}
    (stops : level.Stops rest) :
    (expression level (derivation.tokens ++ rest)).Gives derivation.value rest :=
  derivation.read.gives rest stops

end Derivation

end LocationPath
