import LocationPath.Node.Parser

/-! # What readings give

When each reading of an expression succeeds, in terms of the readings that it is made of. The proofs
that a reading carries along are left out here, so that two readings can be compared by what they
find and by what they leave.

Main definition: `Reading.Gives`. -/

namespace LocationPath

namespace Reading

/-- A reading finds a value and leaves some tokens. -/
def Gives {α : Type} {bound : Nat} (reading : Reading α bound) (value : α) (rest : List Token) :
    Prop :=
  ∃ rest_lt, reading = .ok ⟨value, rest, rest_lt⟩

/-- What a reading leaves is shorter than its bound. -/
theorem Gives.length_lt {α : Type} {bound : Nat} {reading : Reading α bound} {value : α}
    {rest : List Token} (h : reading.Gives value rest) : rest.length < bound := by
  obtain ⟨rest_lt, -⟩ := h
  exact rest_lt

/-- What has been found is found, and nothing else. -/
theorem gives_ok {α : Type} {bound : Nat} {parsed : Parsed α bound} {value : α}
    {rest : List Token} :
    Gives (.ok parsed) value rest ↔ value = parsed.value ∧ rest = parsed.rest := by
  constructor
  · rintro ⟨rest_lt, eq⟩
    obtain rfl := Except.ok.inj eq
    exact ⟨rfl, rfl⟩
  · rintro ⟨rfl, rfl⟩
    exact ⟨parsed.rest_lt, rfl⟩

/-- An error finds nothing. -/
theorem not_gives_error {α : Type} {bound : Nat} {error : List Token} {value : α}
    {rest : List Token} : ¬ Gives (.error error : Reading α bound) value rest := by
  rintro ⟨rest_lt, eq⟩
  simp at eq

/-- One reading after another. -/
theorem gives_bind {α β : Type} {bound bound' : Nat} {reading : Reading α bound}
    {next : Parsed α bound → Reading β bound'} {value : β} {rest : List Token} :
    Gives (reading >>= next) value rest ↔
      ∃ first middle, ∃ h, reading.Gives first middle ∧ (next ⟨first, middle, h⟩).Gives value rest := by
  cases reading with
  | error error =>
    constructor
    · intro h
      exact absurd h not_gives_error
    · rintro ⟨first, middle, h, gives, -⟩
      exact absurd gives not_gives_error
  | ok parsed =>
    constructor
    · intro h
      exact ⟨parsed.value, parsed.rest, parsed.rest_lt, gives_ok.2 ⟨rfl, rfl⟩, h⟩
    · rintro ⟨first, middle, h, gives, gives'⟩
      obtain ⟨rfl, rfl⟩ := gives_ok.1 gives
      exact gives'

/-- A reading whose value is finished without taking more tokens. -/
theorem gives_finish {α β : Type} {bound bound' : Nat} {reading : Reading α bound}
    {next : Parsed α bound → Reading β bound'} (finish : α → β)
    (h : ∀ parsed, ∃ rest_lt, next parsed = pure ⟨finish parsed.value, parsed.rest, rest_lt⟩)
    {value : β} {rest : List Token} :
    Gives (reading >>= next) value rest ↔
      ∃ inner, reading.Gives inner rest ∧ value = finish inner := by
  rw [gives_bind]
  constructor
  · rintro ⟨inner, middle, lt, first, second⟩
    obtain ⟨rest_lt, eq⟩ := h ⟨inner, middle, lt⟩
    obtain ⟨rfl, rfl⟩ := gives_ok.1 (eq ▸ second)
    exact ⟨inner, first, rfl⟩
  · rintro ⟨inner, first, rfl⟩
    have lt := first.length_lt
    obtain ⟨rest_lt, eq⟩ := h ⟨inner, rest, lt⟩
    exact ⟨inner, rest, lt, first, eq ▸ gives_ok.2 ⟨rfl, rfl⟩⟩

/-! ## Chains -/

/-- A chain is an operand and what follows it. -/
theorem gives_chain {chain : Chain} {tokens rest : List Token} {node : Node} :
    (expression (.chain chain) tokens).Gives node rest ↔
      ∃ left middle, ∃ h, (expression chain.operand tokens).Gives left middle ∧
        (links tokens.length chain left middle h).Gives node rest := by
  rw [expression, gives_bind]

/-- At the end of the tokens a chain ends. -/
theorem gives_links_nil {bound : Nat} {chain : Chain} {left node : Node} {rest : List Token}
    {h : [].length < bound} :
    (links bound chain left [] h).Gives node rest ↔ node = left ∧ rest = [] := by
  rw [links, gives_ok]

/-- A chain goes on with an operator of it. -/
theorem gives_links_of_joins {bound : Nat} {chain : Chain} {left node : Node} {op : Token}
    {tokens rest : List Token} {h : (op :: tokens).length < bound}
    (joins : chain.joins op.lexeme = true) :
    (links bound chain left (op :: tokens) h).Gives node rest ↔
      ∃ right middle, ∃ h, (expression chain.operand tokens).Gives right middle ∧
        (links bound chain (.binary (left.span.through right.span) left op.lexeme.value.plain right)
          middle h).Gives node rest := by
  rw [links, if_pos joins, gives_bind]
  constructor
  · rintro ⟨right, middle, h', first, second⟩
    exact ⟨right, middle, _, first, second⟩
  · rintro ⟨right, middle, h', first, second⟩
    have lt := first.length_lt
    exact ⟨right, middle, lt, first, second⟩

/-- In front of any other token a chain ends. -/
theorem gives_links_of_not_joins {bound : Nat} {chain : Chain} {left node : Node} {token : Token}
    {tokens rest : List Token} {h : (token :: tokens).length < bound}
    (joins : chain.joins token.lexeme = false) :
    (links bound chain left (token :: tokens) h).Gives node rest ↔
      node = left ∧ rest = token :: tokens := by
  rw [links, if_neg (by simp [joins]), gives_ok]

/-! ## Minus signs and the root -/

/-- Tokens that are not a lexeme and others behind it do not begin with it. -/
theorem ne_of_mem_head? {lexeme : Lexeme} {tokens : List Token}
    (h : ¬ ∃ span behind, tokens = ⟨lexeme, span⟩ :: behind) :
    ∀ token ∈ tokens.head?, token.lexeme ≠ lexeme := by
  rintro ⟨_, span⟩ mem rfl
  cases tokens with
  | nil => simp at mem
  | cons token tail => exact h ⟨span, tail, by rw [Option.mem_some.1 mem]⟩

/-- A minus sign stands in front of its operand. -/
theorem gives_minus {minus : Span} {tokens rest : List Token} {node : Node} :
    (expression .negation (⟨.minus, minus⟩ :: tokens)).Gives node rest ↔
      ∃ inner, (expression .negation tokens).Gives inner rest ∧
        node = .unary (minus.through inner.span) ['-'] inner := by
  rw [expression]
  refine gives_finish (fun inner => Node.unary (minus.through inner.span) ['-'] inner) ?_
  exact fun parsed => ⟨_, rfl⟩

/-- Without a minus sign at its start a negation is a union. -/
theorem gives_negation {tokens rest : List Token} {node : Node}
    (h : ∀ token ∈ tokens.head?, token.lexeme ≠ .minus) :
    (expression .negation tokens).Gives node rest ↔
      (expression (.chain .union) tokens).Gives node rest := by
  rw [expression]
  rintro span behind rfl
  exact h _ rfl rfl

/-- The root in front of what can start a step is followed by steps. -/
theorem gives_absolute {slash : Span} {tokens rest : List Token} {node : Node}
    (h : Opening.canStart tokens = true) :
    (expression .path (⟨.slash, slash⟩ :: tokens)).Gives node rest ↔
      ∃ steps, (expression (.chain .steps) tokens).Gives steps rest ∧
        node = .absolute (slash.through steps.span) ['/'] steps := by
  rw [expression, if_pos h]
  refine gives_finish (fun steps => Node.absolute (slash.through steps.span) ['/'] steps) ?_
  exact fun parsed => ⟨_, rfl⟩

/-- Else the root stands alone. -/
theorem gives_root {slash : Span} {tokens rest : List Token} {node : Node}
    (h : Opening.canStart tokens = false) :
    (expression .path (⟨.slash, slash⟩ :: tokens)).Gives node rest ↔
      node = .root slash ['/'] ∧ rest = tokens := by
  rw [expression, if_neg (by simp [h]), gives_ok]

/-- A double slash is followed by steps. -/
theorem gives_anywhere {slashes : Span} {tokens rest : List Token} {node : Node} :
    (expression .path (⟨.slashes, slashes⟩ :: tokens)).Gives node rest ↔
      ∃ steps, (expression (.chain .steps) tokens).Gives steps rest ∧
        node = .absolute (slashes.through steps.span) ['/', '/'] steps := by
  rw [expression]
  refine gives_finish (fun steps => Node.absolute (slashes.through steps.span) ['/', '/'] steps) ?_
  exact fun parsed => ⟨_, rfl⟩

/-- Without a slash at its start a path is steps. -/
theorem gives_path {tokens rest : List Token} {node : Node}
    (h : ∀ token ∈ tokens.head?, token.lexeme ≠ .slash ∧ token.lexeme ≠ .slashes) :
    (expression .path tokens).Gives node rest ↔
      (expression (.chain .steps) tokens).Gives node rest := by
  rw [expression]
  · rintro span behind rfl
    exact (h _ rfl).1 rfl
  · rintro span behind rfl
    exact (h _ rfl).2 rfl

/-! ## Steps -/

/-- An expression of the tightest level is a step. -/
theorem gives_expression_step {tokens rest : List Token} {node : Node} :
    (expression .step tokens).Gives node rest ↔ (step tokens).Gives node rest := by
  rw [expression]

/-- A head that holds no expression is followed by predicates. -/
theorem gives_step_head {tokens behind rest : List Token} {head : Head} {node : Node}
    (found : Opening.ofTokens tokens = .ok (.head head, behind)) :
    (step tokens).Gives node rest ↔
      ∃ h conditions, (predicates tokens.length behind h).Gives conditions rest ∧
        node = head.withPredicates conditions := by
  rw [step]
  split
  · simp_all
  · rename_i head' behind' found'
    obtain ⟨⟨rfl⟩, rfl⟩ : Opening.head head = .head head' ∧ behind = behind' := by
      simpa [found] using found'
    rw [gives_finish head.withPredicates fun parsed => ⟨_, rfl⟩]
    constructor
    · intro behind_gives
      exact ⟨_, behind_gives⟩
    · rintro ⟨_, behind_gives⟩
      exact behind_gives
  · simp_all
  · simp_all

/-- A group is an expression in parentheses, followed by predicates. -/
theorem gives_step_group {tokens behind rest : List Token} {paren : Span} {node : Node}
    (found : Opening.ofTokens tokens = .ok (.group paren, behind)) :
    (step tokens).Gives node rest ↔
      ∃ inner closing after,
        (expression (.chain .sequence) behind).Gives inner (⟨.closeParen, closing⟩ :: after) ∧
          ∃ h conditions, (predicates tokens.length after h).Gives conditions rest ∧
            node = (Head.primary (.sequence (paren.through closing)
              inner.commaItems)).withPredicates conditions := by
  rw [step]
  split
  · simp_all
  · simp_all
  · rename_i paren' behind' found'
    obtain ⟨⟨rfl⟩, rfl⟩ : Opening.group paren = .group paren' ∧ behind = behind' := by
      simpa [found] using found'
    rw [gives_bind]
    constructor
    · rintro ⟨inner, middle, h, first, second⟩
      split at second
      · exact absurd second not_gives_error
      · rename_i closing after closed
        obtain rfl := Token.expect_eq_ok_iff.1 closed
        dsimp only at second
        rw [gives_finish (Head.withPredicates _) fun parsed => ⟨_, rfl⟩] at second
        exact ⟨inner, closing, after, first, _, second⟩
    -- The parenthesis that is there is the one that is expected.
    · rintro ⟨inner, closing, after, first, h, second⟩
      have lt := first.length_lt
      refine ⟨inner, _, lt, first, ?_⟩
      split
      · rename_i error closed
        simp [Token.expect] at closed
      · rename_i closing' after' closed
        obtain ⟨rfl, rfl⟩ : closing = closing' ∧ after = after' := by
          simpa [Token.expect] using closed
        dsimp only
        rw [gives_finish (Head.withPredicates _) fun parsed => ⟨_, rfl⟩]
        exact second
  · simp_all

/-- A call is a name with arguments in parentheses, followed by predicates. -/
theorem gives_step_call {tokens behind rest : List Token} {name : Span} {qualifier : Option Text}
    {function : Text} {node : Node}
    (found : Opening.ofTokens tokens = .ok (.call name qualifier function, behind)) :
    (step tokens).Gives node rest ↔
      ∃ inner closing after, (arguments behind).Gives (inner, closing) after ∧
        ∃ h conditions, (predicates tokens.length after h).Gives conditions rest ∧
          node = (Head.primary (.call (name.through closing) qualifier function
            inner)).withPredicates conditions := by
  rw [step]
  split
  · simp_all
  · simp_all
  · simp_all
  · rename_i name' qualifier' function' behind' found'
    obtain ⟨⟨rfl, rfl, rfl⟩, rfl⟩ : (name = name' ∧ qualifier = qualifier' ∧
        function = function') ∧ behind = behind' := by
      simpa [found] using found'
    rw [gives_bind]
    constructor
    · rintro ⟨⟨inner, closing⟩, after, h, first, second⟩
      dsimp only at second
      rw [gives_finish (Head.withPredicates _) fun parsed => ⟨_, rfl⟩] at second
      exact ⟨inner, closing, after, first, _, second⟩
    · rintro ⟨inner, closing, after, first, h, second⟩
      have lt := first.length_lt
      refine ⟨(inner, closing), after, lt, first, ?_⟩
      dsimp only
      rw [gives_finish (Head.withPredicates _) fun parsed => ⟨_, rfl⟩]
      exact second

/-! ## Predicates and arguments -/

/-- In front of any token but an opening bracket predicates end. -/
theorem gives_predicates_end {bound : Nat} {tokens rest : List Token} {h : tokens.length < bound}
    {conditions : List Node} (stops : ∀ token ∈ tokens.head?, token.lexeme ≠ .openBracket) :
    (predicates bound tokens h).Gives conditions rest ↔ conditions = [] ∧ rest = tokens := by
  rw [predicates, gives_ok]
  rintro span behind h' rfl -
  exact stops _ rfl rfl

/-- An opening bracket starts a predicate, and more of them may follow. -/
theorem gives_predicates_open {bound : Nat} {opening : Span} {tokens rest : List Token}
    {h : (⟨.openBracket, opening⟩ :: tokens).length < bound} {conditions : List Node} :
    (predicates bound (⟨.openBracket, opening⟩ :: tokens) h).Gives conditions rest ↔
      ∃ inner closing after,
        (expression (.chain .sequence) tokens).Gives inner (⟨.closeBracket, closing⟩ :: after) ∧
          ∃ h more, (predicates bound after h).Gives more rest ∧
            conditions = .predicate (opening.through closing) inner :: more := by
  rw [predicates, gives_bind]
  constructor
  · rintro ⟨inner, middle, h, first, second⟩
    split at second
    · exact absurd second not_gives_error
    · rename_i closing after closed
      obtain rfl := Token.expect_eq_ok_iff.1 closed
      dsimp only at second
      rw [gives_finish (Node.predicate (opening.through closing) inner :: ·) fun parsed => ⟨_, rfl⟩]
        at second
      exact ⟨inner, closing, after, first, _, second⟩
  -- The bracket that is there is the one that is expected.
  · rintro ⟨inner, closing, after, first, h, second⟩
    have lt := first.length_lt
    refine ⟨inner, _, lt, first, ?_⟩
    split
    · rename_i error closed
      simp [Token.expect] at closed
    · rename_i closing' after' closed
      obtain ⟨rfl, rfl⟩ : closing = closing' ∧ after = after' := by
        simpa [Token.expect] using closed
      dsimp only
      rw [gives_finish (Node.predicate (opening.through closing) inner :: ·) fun parsed => ⟨_, rfl⟩]
      exact second

/-- Arguments are an expression and what follows it: a comma with more of them, or the parenthesis
that closes them. -/
theorem gives_arguments {tokens rest : List Token} {values : List Node} {closing : Span} :
    (arguments tokens).Gives (values, closing) rest ↔
      ∃ first middle, (expression (.chain .disjunction) tokens).Gives first middle ∧
        ((∃ comma behind more, middle = ⟨.comma, comma⟩ :: behind ∧
          (arguments behind).Gives (more, closing) rest ∧ values = first :: more) ∨
        (middle = ⟨.closeParen, closing⟩ :: rest ∧ values = [first])) := by
  rw [arguments, gives_bind]
  constructor
  · rintro ⟨first, middle, h, gives, next⟩
    refine ⟨first, middle, gives, ?_⟩
    split at next
    · rename_i comma behind eq
      obtain ⟨⟨more, closing'⟩, gives', eq'⟩ :=
        (gives_finish (fun more : List Node × Span => (first :: more.1, more.2))
          fun parsed => by exact ⟨_, rfl⟩).1 next
      simp only [Prod.mk.injEq] at eq'
      obtain ⟨rfl, rfl⟩ := eq'
      exact .inl ⟨comma, behind, more, eq, gives', rfl⟩
    · rename_i last behind eq
      obtain ⟨eq', rfl⟩ := gives_ok.1 next
      simp only [Prod.mk.injEq] at eq'
      obtain ⟨rfl, rfl⟩ := eq'
      exact .inr ⟨eq, rfl⟩
    · exact absurd next not_gives_error
  · rintro ⟨first, middle, gives, next⟩
    have lt := gives.length_lt
    refine ⟨first, middle, lt, gives, ?_⟩
    obtain ⟨comma, behind, more, rfl, gives', rfl⟩ | ⟨rfl, rfl⟩ := next
    · dsimp only
      refine (gives_finish (fun more : List Node × Span => (first :: more.1, more.2)) ?_).2
        ⟨(more, closing), gives', rfl⟩
      exact fun parsed => ⟨_, rfl⟩
    · exact gives_ok.2 ⟨rfl, rfl⟩

end Reading

end LocationPath
