import LocationPath.Proofs.Grammar.Lookahead
import LocationPath.Proofs.Grammar.Recognition
import LocationPath.Proofs.Grammar.Viable
import LocationPath.Proofs.Lexing.Unknown

/-! # Where syntax errors are reported

A syntax error is reported at the first place where no expression can go on: the tokens before it
begin some expression, and with what stands there they begin none. This may be a token, a text that
no token starts with, or the end of the text.

Main definitions: `IsExpression`, `BeginsExpression`, and `SyntaxError.EndsEarly`,
`SyntaxError.MeetsToken` and `SyntaxError.MeetsUnknown` for the kinds of errors. Main result:
`Node.parse_malformed`. -/

namespace LocationPath

/-! ## Beginnings of expressions -/

/-- The classes of some tokens, in order. -/
def Token.classes (tokens : List Token) : List Text := tokens.map (·.lexeme.typeName)

/-- Some tokens are an expression by their classes. -/
def IsExpression (tokens : List Token) : Prop :=
  ∃ derivation : Derivation .expression, Token.classes derivation.tokens = Token.classes tokens

/-- Some tokens begin an expression by their classes. -/
def BeginsExpression (tokens : List Token) : Prop :=
  ∃ derivation : Derivation .expression, Token.classes tokens <+: Token.classes derivation.tokens

/-- Tokens begin an expression by their classes exactly if they are themselves gone on with by one. -/
theorem beginsExpression_iff {tokens : List Token} :
    BeginsExpression tokens ↔ Phrase.expression.Viable tokens := by
  constructor
  · rintro ⟨derivation, more, eq⟩
    -- The derivation is moved to the tokens in front and to its own ones behind them.
    have alike : Alike (tokens ++ derivation.tokens.drop tokens.length) derivation.tokens := by
      have taken : derivation.tokens.map (·.lexeme.typeName) =
          Token.classes tokens ++ (derivation.tokens.drop tokens.length).map (·.lexeme.typeName) := by
        rw [List.map_drop, show derivation.tokens.map (·.lexeme.typeName) =
          Token.classes tokens ++ more from eq.symm]
        congr 1
        rw [List.drop_left' (by simp [Token.classes])]
      rw [Alike, List.map_append, taken]
      rfl
    obtain ⟨moved, moved_eq⟩ := derivation.exists_of_alike alike
    exact ⟨moved, _, moved_eq.symm⟩
  · rintro ⟨derivation, more, eq⟩
    refine ⟨derivation, Token.classes more, ?_⟩
    rw [← eq, Token.classes, Token.classes, Token.classes, List.map_append]

/-- Tokens are an expression by their classes exactly if they have a tree. -/
theorem isExpression_iff {tokens : List Token} :
    IsExpression tokens ↔ ∃ tree, Node.ofTokens tokens = .ok tree := by
  constructor
  · rintro ⟨derivation, eq⟩
    have alike : Alike tokens derivation.tokens := eq.symm
    obtain ⟨moved, moved_eq⟩ := derivation.exists_of_alike alike
    exact ⟨moved.value, Node.ofTokens_eq_ok_iff.2 ⟨moved, moved_eq, rfl⟩⟩
  · rintro ⟨tree, found⟩
    obtain ⟨derivation, eq, -⟩ := Node.ofTokens_eq_ok_iff.1 found
    exact ⟨derivation, by rw [eq]⟩

/-- An expression begins one. -/
theorem IsExpression.begins {tokens : List Token} (h : IsExpression tokens) :
    BeginsExpression tokens := by
  obtain ⟨derivation, eq⟩ := h
  exact ⟨derivation, [], by rw [List.append_nil, eq]⟩

/-! ## Errors of the parser -/

namespace Node

/-- The outcome that an error stems from: nothing is found, or something is left. -/
theorem exists_outcome_of_error {tokens rest : List Token} (h : ofTokens tokens = .error rest) :
    ∃ found, (Reading.expression (.chain .sequence) tokens).outcome = (found, rest) ∧
      (found = none ∨ rest ≠ []) := by
  unfold ofTokens at h
  split at h
  · rename_i error eq
    obtain rfl := Except.error.inj h
    exact ⟨none, by rw [eq]; rfl, .inl rfl⟩
  · simp at h
  · rename_i node token behind lt eq
    obtain rfl := Except.error.inj h
    exact ⟨some node, by rw [eq]; rfl, .inr (by simp)⟩

/-- What stands before an error begins an expression. -/
theorem exists_begins_of_error {tokens rest : List Token} (h : ofTokens tokens = .error rest) :
    ∃ before, tokens = before ++ rest ∧ BeginsExpression before := by
  obtain ⟨found, outcome_eq, -⟩ := exists_outcome_of_error h
  cases found with
  | none =>
    obtain ⟨before, eq, viable⟩ := Reading.reaches_of_outcome_eq_none _ _ _ outcome_eq
    exact ⟨before, eq.symm, beginsExpression_iff.2 viable⟩
  | some node =>
    -- What has been found is an expression already, and the error is about the tokens behind it.
    obtain ⟨derivation, eq, -⟩ := Reading.exists_of_outcome outcome_eq
    exact ⟨derivation.tokens, eq.symm, derivation, List.prefix_rfl⟩

/-- **No expression goes on with the token that is reported.** -/
theorem not_begins_of_error {before after : List Token} {token : Token}
    (h : ofTokens (before ++ token :: after) = .error (token :: after)) :
    ¬ BeginsExpression (before ++ [token]) := by
  intro begins
  obtain ⟨derivation, other, eq⟩ := beginsExpression_iff.1 begins
  obtain ⟨found, outcome_eq, -⟩ := exists_outcome_of_error h
  -- The parser would stop at the token whatever stood behind it.
  have stopped := (Reading.looks _ (.chain .sequence)).same before token after other found
    (Nat.le_refl _) outcome_eq
  rw [List.append_assoc, List.singleton_append] at eq
  have accepted := ofTokens_eq_ok_iff_gives.1 (ofTokens_eq_ok_iff.2 ⟨derivation, rfl, rfl⟩)
  rw [← eq, ← Reading.outcome_eq_some_iff, stopped] at accepted
  simp at accepted

end Node

/-! ## Errors of texts -/

namespace SyntaxError

/-- A text ends where the expression has to go on. -/
structure EndsEarly (error : SyntaxError) (text : Text) : Prop where
  position : error.position = none
  message : error.fault.message = "Unexpected end of expression".toList
  finished : (Lexing.ofText text).ending = .finished
  no_expression : ¬ IsExpression (Lexing.ofText text).tokens
  /-- The tokens are a part of an expression, and not all of it. -/
  begins : ∃ derivation : Derivation .expression,
    Token.classes (Lexing.ofText text).tokens <+: Token.classes derivation.tokens ∧
      Token.classes (Lexing.ofText text).tokens ≠ Token.classes derivation.tokens

/-- The expression cannot go on with a token: the tokens before it begin an expression, and with the
token itself they begin none. -/
def MeetsToken (error : SyntaxError) (text : Text) : Prop :=
  ∃ (before : List Token) (token : Token) (after : List Token),
    (Lexing.ofText text).tokens = before ++ token :: after ∧
      error.position = some token.span.start ∧
      error.fault.message = "Unexpected '".toList ++ token.lexeme.value.plain ++ ['\''] ∧
      BeginsExpression before ∧ ¬ BeginsExpression (before ++ [token])

/-- The expression cannot go on at a position where no lexeme is spelled, after an operand or
elsewhere: all tokens stand before it and begin an expression. -/
def MeetsUnknown (error : SyntaxError) (text : Text) : Prop :=
  ∃ position, error.position = some position ∧
    error.fault.message = "Unknown text '".toList ++ text.drop position ++ ['\''] ∧
    (∀ (afterOperand : Bool) (lexeme : Lexeme) (c : Char) (more behind : Text),
      text.drop position = c :: (more ++ behind) → ¬ lexeme.Spelled afterOperand c more) ∧
    (Lexing.ofText text).ending = .unknown (text.drop position) position ∧
    (∀ token ∈ (Lexing.ofText text).tokens, token.span.stop ≤ position) ∧
    BeginsExpression (Lexing.ofText text).tokens

variable {error : SyntaxError} {text : Text}

/-- The end of a text has no position. -/
theorem EndsEarly.not_others (h : error.EndsEarly text) :
    ¬ error.MeetsToken text ∧ ¬ error.MeetsUnknown text := by
  constructor
  · rintro ⟨before, token, after, -, position, -⟩
    simp [h.position] at position
  · rintro ⟨position, eq, -⟩
    simp [h.position] at eq

/-- Unknown text is not reported as a token. -/
theorem MeetsUnknown.message_ne (h : error.MeetsUnknown text) (value : Scalar) :
    error.fault.message ≠ (Fault.unexpected value).message := by
  obtain ⟨position, -, message, -⟩ := h
  intro same
  have firsts := congrArg (List.take 3) (same.symm.trans message)
  exact absurd (show "Une".toList = "Unk".toList from firsts) (by decide)

/-- No token is reported as unknown text. -/
theorem MeetsToken.not_meetsUnknown (h : error.MeetsToken text) : ¬ error.MeetsUnknown text := by
  obtain ⟨before, token, after, -, -, message, -⟩ := h
  exact fun unknown => unknown.message_ne token.lexeme.value message

end SyntaxError

namespace Node

variable {text : Text} {error : SyntaxError}

/-- The errors that a text can be rejected with as malformed: that of the first token that the
parser stops at, else that of the text that is no token, else that of the end. -/
theorem parse_malformed_cases (h : parse text = .error (.malformed error)) :
    (∃ token after, ofTokens (Lexing.ofText text).tokens = .error (token :: after) ∧
      error = ⟨.unexpected token.lexeme.value, some text, some token.span.start⟩) ∨
    (∃ rest position, (Lexing.ofText text).ending = .unknown rest position ∧
      error = ⟨.unknownText rest, some text, some position⟩ ∧
      (ofTokens (Lexing.ofText text).tokens = .error [] ∨
        ∃ tree, ofTokens (Lexing.ofText text).tokens = .ok tree)) ∨
    ((Lexing.ofText text).ending = .finished ∧ error = ⟨.unexpectedEnd, some text, none⟩ ∧
      ofTokens (Lexing.ofText text).tokens = .error []) := by
  simp only [parse] at h
  split at h
  · rename_i token after rejected
    obtain rfl := PathError.malformed.inj (Except.error.inj h)
    exact .inl ⟨token, after, rejected, rfl⟩
  · rename_i found error' ended no_token
    obtain rfl := Except.error.inj h
    cases ending : (Lexing.ofText text).ending with
    | finished | tooLong => simp [ending, Ending.error?] at ended
    -- The tokens in front of the unknown text are an expression, or they end too early for one.
    | unknown rest position =>
      simp only [ending, Ending.error?, Option.some.injEq, PathError.malformed.injEq] at ended
      refine .inr (.inl ⟨rest, position, rfl, ended.symm, ?_⟩)
      cases result : ofTokens (Lexing.ofText text).tokens with
      | ok tree => exact .inr ⟨tree, rfl⟩
      | error left =>
        cases left with
        | nil => exact .inl rfl
        | cons token after => exact absurd result (no_token token after)
  · rename_i rejected ended
    obtain rfl := PathError.malformed.inj (Except.error.inj h)
    exact .inr (.inr ⟨Ending.error?_eq_none_iff.1 ended, rfl, rejected⟩)
  · simp at h

/-- **A syntax error is reported at the first place where no expression can go on**, and it is one
of three kinds: the text ends early, a token is met, or a text that no token starts with. -/
theorem parse_malformed (h : parse text = .error (.malformed error)) :
    error.text = some text ∧
      ((error.EndsEarly text ∧ ¬ error.MeetsToken text ∧ ¬ error.MeetsUnknown text) ∨
        (¬ error.EndsEarly text ∧ error.MeetsToken text ∧ ¬ error.MeetsUnknown text) ∨
        (¬ error.EndsEarly text ∧ ¬ error.MeetsToken text ∧ error.MeetsUnknown text)) := by
  rcases parse_malformed_cases h with ⟨token, after, rejected, rfl⟩ |
    ⟨rest, position, ending, rfl, result⟩ | ⟨finished, rfl, rejected⟩
  · refine ⟨rfl, .inr (.inl ?_)⟩
    obtain ⟨before, eq, begins⟩ := exists_begins_of_error rejected
    rw [eq] at rejected
    have meets : SyntaxError.MeetsToken
        ⟨.unexpected token.lexeme.value, some text, some token.span.start⟩ text :=
      ⟨before, token, after, eq, rfl, rfl, begins, not_begins_of_error rejected⟩
    exact ⟨fun early => early.not_others.1 meets, meets, meets.not_meetsUnknown⟩
  · refine ⟨rfl, .inr (.inr ?_)⟩
    obtain ⟨-, rfl, before, nothing⟩ := Lexing.of_ending_unknown ending
    rw [Nat.sub_zero] at ending nothing
    -- The parser has taken all tokens before the unknown text, whether it needs more of them or not.
    have begins : BeginsExpression (Lexing.ofText text).tokens := by
      rcases result with rejected | accepted
      · obtain ⟨before, eq, begins⟩ := exists_begins_of_error rejected
        rwa [eq, List.append_nil]
      · exact (isExpression_iff.2 accepted).begins
    have meets : SyntaxError.MeetsUnknown
        ⟨.unknownText (text.drop (position - 0)), some text, some position⟩ text :=
      ⟨position, rfl, rfl, nothing, ending, before, begins⟩
    exact ⟨fun early => early.not_others.2 meets, fun token => token.not_meetsUnknown meets, meets⟩
  · refine ⟨rfl, .inl ?_⟩
    have no_expression : ¬ IsExpression (Lexing.ofText text).tokens := by
      intro expression
      obtain ⟨tree, accepted⟩ := isExpression_iff.1 expression
      rw [rejected] at accepted
      contradiction
    obtain ⟨before, eq, derivation, begins⟩ := exists_begins_of_error rejected
    rw [List.append_nil] at eq
    rw [← eq] at begins
    have early : SyntaxError.EndsEarly ⟨.unexpectedEnd, some text, none⟩ text :=
      ⟨rfl, rfl, finished, no_expression, derivation, begins,
        fun same => no_expression ⟨derivation, same.symm⟩⟩
    exact ⟨early, early.not_others⟩

/-- A token that no expression goes on with is reported, and not the text behind it that no token
starts with. -/
theorem parse_malformed_of_bracket : ∃ error, parse "a + ] #".toList = .error (.malformed error) ∧
    error.position = some 4 ∧ error.MeetsToken "a + ] #".toList := by
  have shown : (parse "a + ] #".toList).map (fun _ => ()) =
      .error (.malformed ⟨.unexpected (.text "]".toList), some "a + ] #".toList, some 4⟩) := by
    decide +kernel
  cases rejected : parse "a + ] #".toList with
  | ok tree =>
    rw [rejected] at shown
    contradiction
  | error error =>
    rw [rejected] at shown
    obtain rfl := Except.error.inj shown
    refine ⟨_, rfl, rfl, ?_⟩
    rcases (parse_malformed rejected).2 with ⟨early, -⟩ | ⟨-, meets, -⟩ | ⟨-, -, unknown⟩
    · simpa using early.position
    · exact meets
    · exact absurd rfl (unknown.message_ne (.text "]".toList))

end Node

end LocationPath
