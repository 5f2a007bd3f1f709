import LocationPath.Proofs.Grammar.Reading

/-! # What comes of readings

A reading finds something and leaves the tokens behind it, or it finds nothing and leaves the tokens
from the first unacceptable one on. Both together are its **outcome**. Without the proofs that a
reading carries along, the readings of the grammar are functions from tokens to outcomes, each made
of others one behind the other.

Main definitions: `Outcome`, `Outcome.andThen` and `Reading.outcome`. Main results:
`Reading.outcome_chain`, `Reading.outcome_step` and their like, an equation for every reading. -/

namespace LocationPath

/-- What is found at the start of some tokens, if anything is, and the tokens that are left. -/
abbrev Outcome (α : Type) := Option α × List Token

namespace Outcome

variable {α β : Type}

/-- One reading behind another one, if that has found something. -/
def andThen (outcome : Outcome α) (next : α → List Token → Outcome β) : Outcome β :=
  match outcome with
  | (none, rest) => (none, rest)
  | (some value, rest) => next value rest

/-- What is found, finished without taking more tokens. -/
def finish (outcome : Outcome α) (make : α → β) : Outcome β :=
  outcome.andThen fun value rest => (some (make value), rest)

/-- The outcome of taking some tokens. -/
def of : Except (List Token) (α × List Token) → Outcome α
  | .error rest => (none, rest)
  | .ok (value, rest) => (some value, rest)

/-- Taking some tokens comes to nothing exactly with an error. -/
theorem of_eq_none_iff {taking : Except (List Token) (α × List Token)} {rest : List Token} :
    of taking = (none, rest) ↔ taking = .error rest := by
  cases taking <;> simp [of]

/-- Something is found exactly where taking some tokens succeeds. -/
theorem of_eq_some_iff {taking : Except (List Token) (α × List Token)} {value : α}
    {rest : List Token} : of taking = (some value, rest) ↔ taking = .ok (value, rest) := by
  rcases taking with error | ⟨found, left⟩ <;> simp [of]

@[simp] theorem andThen_none (rest : List Token) (next : α → List Token → Outcome β) :
    andThen (none, rest) next = (none, rest) := rfl

@[simp] theorem andThen_some (value : α) (rest : List Token) (next : α → List Token → Outcome β) :
    andThen (some value, rest) next = next value rest := rfl

/-- Two readings come to nothing if the first one does, or else if the second one does. -/
theorem andThen_eq_none_iff {outcome : Outcome α} {next : α → List Token → Outcome β}
    {rest : List Token} : outcome.andThen next = (none, rest) ↔
      outcome = (none, rest) ∨
        ∃ value middle, outcome = (some value, middle) ∧ next value middle = (none, rest) := by
  rcases outcome with ⟨_ | value, middle⟩
  · simp
  · constructor
    · exact fun h => .inr ⟨value, middle, rfl, h⟩
    · rintro (h | ⟨value', middle', eq, h⟩)
      · simp at h
      · obtain ⟨⟨rfl⟩, rfl⟩ := Prod.mk.inj eq
        exact h

/-- What comes to nothing is not finished. -/
@[simp] theorem finish_eq_none_iff {outcome : Outcome α} {make : α → β} {rest : List Token} :
    outcome.finish make = (none, rest) ↔ outcome = (none, rest) := by
  rcases outcome with ⟨_ | value, middle⟩ <;> simp [finish]

end Outcome

namespace Reading

variable {α β : Type} {bound bound' : Nat}

/-- What comes of a reading. -/
def outcome : Reading α bound → Outcome α
  | .error rest => (none, rest)
  | .ok parsed => (some parsed.value, parsed.rest)

/-- What a reading gives is its outcome. -/
theorem outcome_eq_some_iff {reading : Reading α bound} {value : α} {rest : List Token} :
    outcome reading = (some value, rest) ↔ reading.Gives value rest := by
  cases reading with
  | error error => simp [outcome, not_gives_error]
  | ok parsed => simp [outcome, gives_ok, eq_comm]

/-- The outcome of one reading behind another one. -/
theorem outcome_bind {reading : Reading α bound} {next : Parsed α bound → Reading β bound'}
    {later : α → List Token → Outcome β}
    (h : ∀ parsed, outcome (next parsed) = later parsed.value parsed.rest) :
    outcome (reading >>= next) = (outcome reading).andThen later := by
  cases reading with
  | error error => rfl
  | ok parsed => exact h parsed

/-- What comes of one reading behind another one depends on what comes of the second one. -/
theorem outcome_bind_congr {reading : Reading α bound} {bound'' : Nat}
    {next : Parsed α bound → Reading β bound'} {next' : Parsed α bound → Reading β bound''}
    (h : ∀ parsed, outcome (next parsed) = outcome (next' parsed)) :
    outcome (reading >>= next) = outcome (reading >>= next') := by
  cases reading with
  | error error => rfl
  | ok parsed => exact h parsed

/-- The outcome of a reading whose value is finished without taking more tokens. -/
theorem outcome_finish {reading : Reading α bound} {next : Parsed α bound → Reading β bound'}
    (make : α → β)
    (h : ∀ parsed, ∃ rest_lt, next parsed = pure ⟨make parsed.value, parsed.rest, rest_lt⟩) :
    outcome (reading >>= next) = (outcome reading).finish make := by
  refine outcome_bind fun parsed => ?_
  obtain ⟨rest_lt, eq⟩ := h parsed
  rw [eq]
  rfl

/-! ## Chains -/

/-- The outcome of going on with a chain depends on no bound. -/
theorem outcome_links_congr {chain : Chain} {left : Node} {tokens : List Token}
    (h : tokens.length < bound) (h' : tokens.length < bound') :
    outcome (links bound chain left tokens h) = outcome (links bound' chain left tokens h') := by
  induction length : tokens.length using Nat.strongRecOn generalizing tokens left with
  | ind length_tokens ih =>
    cases tokens with
    | nil => rw [links, links]; rfl
    | cons op tail =>
      rw [links, links]
      split
      · refine outcome_bind_congr fun right => ?_
        have shorter := right.rest_lt
        rw [List.length_cons] at length
        exact ih right.rest.length (by omega) _ _ rfl
      · rfl

/-- What comes of going on with a chain behind its left part. -/
def linked (chain : Chain) (left : Node) (tokens : List Token) : Outcome Node :=
  outcome (links (tokens.length + 1) chain left tokens (Nat.lt_succ_self _))

/-- A chain is an operand and what it goes on with. -/
theorem outcome_chain (chain : Chain) (tokens : List Token) :
    outcome (expression (.chain chain) tokens) =
      (outcome (expression chain.operand tokens)).andThen (linked chain) := by
  rw [expression]
  exact outcome_bind fun left => outcome_links_congr _ _

/-- At the end of the tokens a chain ends. -/
@[simp] theorem linked_nil (chain : Chain) (left : Node) :
    linked chain left [] = (some left, []) := by
  rw [linked, links]
  rfl

/-- An operator of a chain is followed by an operand, behind which the chain may go on. -/
theorem linked_of_joins {chain : Chain} {op : Token} (joins : chain.joins op.lexeme = true)
    (left : Node) (tokens : List Token) :
    linked chain left (op :: tokens) =
      (outcome (expression chain.operand tokens)).andThen fun right =>
        linked chain (.binary (left.span.through right.span) left op.lexeme.value.plain right) := by
  rw [linked, links, if_pos joins]
  exact outcome_bind fun right => outcome_links_congr _ _

/-- In front of any other token a chain ends. -/
theorem linked_of_not_joins {chain : Chain} {token : Token}
    (joins : chain.joins token.lexeme = false) (left : Node) (tokens : List Token) :
    linked chain left (token :: tokens) = (some left, token :: tokens) := by
  rw [linked, links, if_neg (by simp [joins])]
  rfl

/-! ## Minus signs and the root -/

/-- A minus sign stands in front of its operand. -/
theorem outcome_minus (minus : Span) (tokens : List Token) :
    outcome (expression .negation (⟨.minus, minus⟩ :: tokens)) =
      (outcome (expression .negation tokens)).finish fun inner =>
        .unary (minus.through inner.span) ['-'] inner := by
  rw [expression]
  exact outcome_bind fun inner => rfl

/-- Without a minus sign at its start a negation is a union. -/
theorem outcome_negation {tokens : List Token} (h : ∀ token ∈ tokens.head?, token.lexeme ≠ .minus) :
    outcome (expression .negation tokens) = outcome (expression (.chain .union) tokens) := by
  rw [expression]
  rintro span behind rfl
  exact h _ rfl rfl

/-- What can start a step behind the root is read, and else the root stands alone. -/
theorem outcome_slash (slash : Span) (tokens : List Token) :
    outcome (expression .path (⟨.slash, slash⟩ :: tokens)) =
      if Opening.canStart tokens then
        (outcome (expression (.chain .steps) tokens)).finish fun steps =>
          .absolute (slash.through steps.span) ['/'] steps
      else (some (.root slash ['/']), tokens) := by
  rw [expression]
  split
  · exact outcome_bind fun steps => rfl
  · rfl

/-- A double slash is followed by steps. -/
theorem outcome_slashes (slashes : Span) (tokens : List Token) :
    outcome (expression .path (⟨.slashes, slashes⟩ :: tokens)) =
      (outcome (expression (.chain .steps) tokens)).finish fun steps =>
        .absolute (slashes.through steps.span) ['/', '/'] steps := by
  rw [expression]
  exact outcome_bind fun steps => rfl

/-- Without a slash at its start a path is steps. -/
theorem outcome_path {tokens : List Token}
    (h : ∀ token ∈ tokens.head?, token.lexeme ≠ .slash ∧ token.lexeme ≠ .slashes) :
    outcome (expression .path tokens) = outcome (expression (.chain .steps) tokens) := by
  rw [expression]
  · rintro span behind rfl
    exact (h _ rfl).1 rfl
  · rintro span behind rfl
    exact (h _ rfl).2 rfl

/-! ## Predicates, arguments and steps -/

/-- The outcome of predicates depends on no bound. -/
theorem outcome_predicates_congr {tokens : List Token} (h : tokens.length < bound)
    (h' : tokens.length < bound') :
    outcome (predicates bound tokens h) = outcome (predicates bound' tokens h') := by
  induction length : tokens.length using Nat.strongRecOn generalizing tokens with
  | ind length_tokens ih =>
    by_cases bracket : ∃ span behind, tokens = ⟨.openBracket, span⟩ :: behind
    · obtain ⟨opening, behind, rfl⟩ := bracket
      rw [predicates, predicates]
      refine outcome_bind_congr fun inner => ?_
      split
      · rfl
      · rename_i closing after closed
        have shorter := inner.rest_lt
        have shorter' := Token.length_lt_of_expect closed
        rw [List.length_cons] at length
        refine (outcome_finish (Node.predicate (opening.through closing) inner.value :: ·)
          fun _ => ⟨_, rfl⟩).trans ?_
        -- The bounds are only used for the predicates behind the first one.
        rw [ih after.length (by omega) _ _ rfl]
        exact (outcome_finish _ fun _ => ⟨_, rfl⟩).symm
    · rw [predicates, predicates]
      · rfl
      all_goals
        rintro span behind lt rfl
        exact absurd ⟨span, behind, rfl⟩ bracket

/-- What comes of the predicates at the start of some tokens. -/
def conditions (tokens : List Token) : Outcome (List Node) :=
  outcome (predicates (tokens.length + 1) tokens (Nat.lt_succ_self _))

/-- In front of any token but an opening bracket predicates end. -/
theorem conditions_end {tokens : List Token}
    (h : ∀ token ∈ tokens.head?, token.lexeme ≠ .openBracket) :
    conditions tokens = (some [], tokens) :=
  outcome_eq_some_iff.2 ((gives_predicates_end h).2 ⟨rfl, rfl⟩)

/-- An opening bracket starts a predicate, and more of them may follow. -/
theorem conditions_open (opening : Span) (tokens : List Token) :
    conditions (⟨.openBracket, opening⟩ :: tokens) =
      (outcome (expression (.chain .sequence) tokens)).andThen fun inner rest =>
        (Outcome.of (Token.expect .closeBracket rest)).andThen fun closing after =>
          (conditions after).finish (.predicate (opening.through closing) inner :: ·) := by
  rw [conditions, predicates]
  refine outcome_bind fun inner => ?_
  split
  · rename_i error closed
    rw [Outcome.of_eq_none_iff.2 closed]
    rfl
  · rename_i closing after closed
    rw [Outcome.of_eq_some_iff.2 closed, Outcome.andThen_some, conditions, outcome_finish _ fun _ => ⟨_, rfl⟩]
    rw [outcome_predicates_congr]

/-- What comes of an argument and of what follows it: a comma with more arguments, or the
parenthesis that closes them. -/
def furtherArguments (first : Node) : List Token → Outcome (List Node × Span)
  | ⟨.comma, _⟩ :: rest =>
    (outcome (arguments rest)).finish fun more => (first :: more.1, more.2)
  | ⟨.closeParen, last⟩ :: rest => (some ([first], last), rest)
  | rest => (none, rest)

/-- Arguments are an expression and what follows it. -/
theorem outcome_arguments (tokens : List Token) :
    outcome (arguments tokens) =
      (outcome (expression (.chain .disjunction) tokens)).andThen furtherArguments := by
  rw [arguments]
  refine outcome_bind fun first => ?_
  split
  · rename_i comma rest eq
    refine Eq.trans ?_ (congrArg (furtherArguments first.value) eq).symm
    exact outcome_finish _ fun _ => ⟨_, rfl⟩
  · rename_i last rest eq
    exact (congrArg (furtherArguments first.value) eq).symm
  · rename_i no_comma no_paren
    rw [furtherArguments]
    · rfl
    · exact no_comma
    · exact no_paren

/-- What comes of a step behind its head. -/
def headed (head : Head) (tokens : List Token) : Outcome Node :=
  (conditions tokens).finish head.withPredicates

/-- What comes of a step behind its opening. -/
def opened : Opening → List Token → Outcome Node
  | .head head, tokens => headed head tokens
  | .group paren, tokens =>
    (outcome (expression (.chain .sequence) tokens)).andThen fun inner rest =>
      (Outcome.of (Token.expect .closeParen rest)).andThen fun last =>
        headed (.primary (.sequence (paren.through last) inner.commaItems))
  | .call name qualifier function, tokens =>
    (outcome (arguments tokens)).andThen fun inner =>
      headed (.primary (.call (name.through inner.2) qualifier function inner.1))

/-- Predicates behind a head are a step. -/
theorem outcome_headed (head : Head) {tokens : List Token} (h : tokens.length < bound)
    {next : Parsed (List Node) bound → Reading Node bound'}
    (finishes : ∀ parsed, ∃ rest_lt,
      next parsed = pure ⟨head.withPredicates parsed.value, parsed.rest, rest_lt⟩) :
    outcome (predicates bound tokens h >>= next) = headed head tokens := by
  rw [outcome_finish _ finishes, headed, conditions, outcome_predicates_congr]

/-- A step is its opening and what follows it. -/
theorem outcome_step (tokens : List Token) :
    outcome (step tokens) = (Outcome.of (Opening.ofTokens tokens)).andThen opened := by
  rw [step]
  split
  · rename_i error found
    rw [Outcome.of_eq_none_iff.2 found]
    rfl
  · rename_i head rest found
    rw [Outcome.of_eq_some_iff.2 found]
    exact outcome_headed head _ fun _ => ⟨_, rfl⟩
  · rename_i paren rest found
    rw [Outcome.of_eq_some_iff.2 found]
    refine outcome_bind fun inner => ?_
    split
    · rename_i error closed
      rw [Outcome.of_eq_none_iff.2 closed]
      rfl
    · rename_i last after closed
      rw [Outcome.of_eq_some_iff.2 closed]
      exact outcome_headed _ _ fun _ => ⟨_, rfl⟩
  · rename_i name qualifier function rest found
    rw [Outcome.of_eq_some_iff.2 found]
    exact outcome_bind fun inner => outcome_headed _ _ fun _ => ⟨_, rfl⟩

/-- An expression of the tightest level is a step. -/
theorem outcome_expression_step (tokens : List Token) :
    outcome (expression .step tokens) = outcome (step tokens) := by
  rw [expression]

end Reading

end LocationPath
