import LocationPath.Error
import LocationPath.Node.Level
import LocationPath.Node.Opening

/-! # Reading expressions

The grammar of expressions by recursive descent through the levels. A reading looks at one token
ahead of those that it takes, so it stops at the first token that no expression can go on with.

Main definitions: `Reading.expression` (an expression of a level at the start of a list of tokens),
`Node.ofTokens` (the expression that a list of tokens is) and `Node.parse` (the expression that a
text is). -/

namespace LocationPath

/-- Something read at the start of a list of tokens. -/
structure Parsed (α : Type) (bound : Nat) where
  /-- What is read. -/
  value : α
  /-- The tokens after it. -/
  rest : List Token
  /-- Something has been taken of a list of `bound` tokens. -/
  rest_lt : rest.length < bound

/-- A reading gives what it finds, or else the tokens from the first unacceptable one on. -/
abbrev Reading (α : Type) (bound : Nat) := Except (List Token) (Parsed α bound)

/-- The expressions between the commas of an expression, in order. -/
def Node.commaItems : Node → List Node
  | .binary span left op right =>
    if op = [','] then left.commaItems ++ right.commaItems else [.binary span left op right]
  | node => [node]

namespace Reading

mutual

/-- The longest expression of a level at the start of some tokens. -/
def expression (level : Level) (tokens : List Token) : Reading Node tokens.length :=
  match level with
  | .step => step tokens
  | .path =>
    match tokens with
    | ⟨.slash, span⟩ :: rest =>
      -- The root alone is an expression too, so one more token decides.
      if Opening.canStart rest then do
        let path ← expression (.chain .steps) rest
        return ⟨.absolute (span.through path.value.span) ['/'] path.value, path.rest, by
          have := path.rest_lt; simp; omega⟩
      else .ok ⟨.root span ['/'], rest, by simp⟩
    | ⟨.slashes, span⟩ :: rest => do
      let path ← expression (.chain .steps) rest
      return ⟨.absolute (span.through path.value.span) ['/', '/'] path.value, path.rest, by
        have := path.rest_lt; simp; omega⟩
    -- A path without a slash in front is a chain of steps.
    | tokens => expression (.chain .steps) tokens
  | .negation =>
    match tokens with
    | ⟨.minus, span⟩ :: rest => do
      let operand ← expression .negation rest
      return ⟨.unary (span.through operand.value.span) ['-'] operand.value, operand.rest, by
        have := operand.rest_lt; simp; omega⟩
    | tokens => expression (.chain .union) tokens
  | .chain chain => do
    let left ← expression chain.operand tokens
    links tokens.length chain left.value left.rest left.rest_lt
-- A reading takes a token or goes on to a tighter level. All levels, and the arguments above them,
-- fit into the 14 that a token counts for.
termination_by 14 * tokens.length + level.height + 1
decreasing_by
  all_goals try simp only [Level.height, List.length_cons]
  all_goals try omega
  · have := chain.height_operand_lt
    simp only [Level.height] at this
    omega
  · have := left.rest_lt
    omega

/-- The operators of a chain that follow a left operand, each with its right operand. -/
def links (bound : Nat) (chain : Chain) (left : Node) (tokens : List Token)
    (h : tokens.length < bound) : Reading Node bound :=
  match tokens with
  | [] => .ok ⟨left, [], h⟩
  | token :: rest =>
    if chain.joins token.lexeme then do
      let right ← expression chain.operand rest
      links bound chain
        (.binary (left.span.through right.value.span) left token.lexeme.value.plain right.value)
        right.rest (by have := right.rest_lt; simp at h; omega)
    else .ok ⟨left, token :: rest, h⟩
termination_by 14 * tokens.length
decreasing_by
  · have := chain.operand.height_le
    simp only [List.length_cons]
    omega
  · have := right.rest_lt
    simp only [List.length_cons]
    omega

/-- The step at the start of some tokens, with its predicates. -/
def step (tokens : List Token) : Reading Node tokens.length :=
  match found : Opening.ofTokens tokens with
  | .error rest => .error rest
  | .ok (.head head, rest) => do
    let conditions ← predicates tokens.length rest (Opening.length_lt_of_ofTokens found)
    return ⟨head.withPredicates conditions.value, conditions.rest, conditions.rest_lt⟩
  | .ok (.group paren, rest) => do
    let inner ← expression (.chain .sequence) rest
    match closed : Token.expect .closeParen inner.rest with
    | .error rest => .error rest
    | .ok (last, after) =>
      -- The commas inside the parentheses have been read as operators, and are taken apart again.
      let head := Head.primary (.sequence (paren.through last) inner.value.commaItems)
      let conditions ← predicates tokens.length after (by
        have := Opening.length_lt_of_ofTokens found
        have := inner.rest_lt
        have := Token.length_lt_of_expect closed
        omega)
      return ⟨head.withPredicates conditions.value, conditions.rest, conditions.rest_lt⟩
  | .ok (.call name qualifier function, rest) => do
    let inner ← arguments rest
    -- The call ends with the parenthesis that closes the arguments.
    let head := Head.primary (.call (name.through inner.value.2) qualifier function inner.value.1)
    let conditions ← predicates tokens.length inner.rest (by
      have := Opening.length_lt_of_ofTokens found
      have := inner.rest_lt
      omega)
    return ⟨head.withPredicates conditions.value, conditions.rest, conditions.rest_lt⟩
termination_by 14 * tokens.length
decreasing_by
  all_goals have := Opening.length_lt_of_ofTokens found
  · omega
  · simp only [Level.height]
    omega
  · have := Token.length_lt_of_expect closed
    have := inner.rest_lt
    omega
  · omega
  · have := inner.rest_lt
    omega

/-- The predicates at the start of some tokens. -/
def predicates (bound : Nat) (tokens : List Token) (h : tokens.length < bound) :
    Reading (List Node) bound :=
  match tokens with
  | ⟨.openBracket, first⟩ :: rest => do
    let condition ← expression (.chain .sequence) rest
    match closed : Token.expect .closeBracket condition.rest with
    | .error rest => .error rest
    | .ok (last, after) =>
      let more ← predicates bound after (by
        have := condition.rest_lt
        have := Token.length_lt_of_expect closed
        simp at h
        omega)
      let here := Node.predicate (first.through last) condition.value
      return ⟨here :: more.value, more.rest, more.rest_lt⟩
  | tokens => .ok ⟨[], tokens, h⟩
termination_by 14 * tokens.length
decreasing_by
  all_goals simp only [Level.height, List.length_cons]
  · omega
  · have := Token.length_lt_of_expect closed
    have := condition.rest_lt
    omega

/-- The arguments of a function call at the start of some tokens, at least one, with the place of
the parenthesis that closes them. -/
def arguments (tokens : List Token) : Reading (List Node × Span) tokens.length := do
  -- Arguments stand one level below the comma, which parts them.
  let first ← expression (.chain .disjunction) tokens
  match next : first.rest with
  | ⟨.comma, _⟩ :: rest =>
    let more ← arguments rest
    return ⟨(first.value :: more.value.1, more.value.2), more.rest, by
      have := first.rest_lt
      have := more.rest_lt
      simp [next] at *
      omega⟩
  | ⟨.closeParen, last⟩ :: rest =>
    return ⟨([first.value], last), rest, by
      have := first.rest_lt
      simp [next] at *
      omega⟩
  | rest => .error rest
termination_by 14 * tokens.length + 13
decreasing_by
  · simp only [Level.height]
    omega
  · have := first.rest_lt
    simp only [next, List.length_cons] at this
    omega

end

end Reading

/-! ## Whole expressions -/

/-- The expression that a list of tokens is. An error gives the tokens from the first unacceptable
one on; if there are none, the expression has to go on. -/
def Node.ofTokens (tokens : List Token) : Except (List Token) Node :=
  match Reading.expression (.chain .sequence) tokens with
  | .error rest => .error rest
  | .ok ⟨node, [], _⟩ => .ok node
  | .ok ⟨_, token :: rest, _⟩ => .error (token :: rest)

/-- The expression that a text is. The first token that no expression can go on with is the error;
only if there is none, the end of the tokens is looked at. -/
def Node.parse (text : Text) : Except PathError Node :=
  let lexing := Lexing.ofText text
  match Node.ofTokens lexing.tokens, lexing.ending.error? (some text) with
  | .error (token :: _), _ =>
    .error (.malformed ⟨.unexpected token.lexeme.value, some text, some token.span.start⟩)
  | _, some error => .error error
  | .error [], none => .error (.malformed ⟨.unexpectedEnd, some text, none⟩)
  | .ok node, none => .ok node

end LocationPath
