import LocationPath.Error
import LocationPath.Node

/-! # How steps start

A step is a **head** with predicates. Most heads are read from a few tokens that hold no expression;
a group in parentheses and a function call with arguments hold some, and only their opening is read
here. All readings take the tokens they need and give the rest; an error gives the tokens from the
first one on that no expression can go on with.

Main definitions: `Head`, `Opening`, `NodeTest.ofTokens` and `Opening.ofTokens`. -/

namespace LocationPath

/-- A step without its predicates. -/
inductive Head where
  /-- An axis and a node test, from a position on. -/
  | step (start : Nat) (axis : Axis) (test : NodeTest)
  /-- One dot or two. -/
  | dots (span : Span) (abbreviation : Text)
  /-- A primary expression. -/
  | primary (base : Node)

namespace Head

/-- The place of a head. -/
def span : Head → Span
  | .step start _ test => ⟨start, test.span.stop⟩
  | .dots span _ => span
  | .primary base => base.span

/-- The place of a head with its predicates, which runs through the last of them. -/
def spanWith (head : Head) (predicates : List Node) : Span :=
  match predicates.getLast? with
  | none => head.span
  | some last => head.span.through last.span

/-- A head with its predicates. A primary expression without predicates stays as it is. -/
def withPredicates (head : Head) (predicates : List Node) : Node :=
  match head with
  | .step _ axis test => .step (head.spanWith predicates) axis test predicates
  | .dots _ abbreviation => .dots (head.spanWith predicates) abbreviation predicates
  | .primary base =>
    if predicates.isEmpty then base else .filter (head.spanWith predicates) base predicates

end Head

/-- How a step starts. -/
inductive Opening where
  /-- With a head that holds no expression. -/
  | head (head : Head)
  /-- With the parenthesis of a group. -/
  | group (paren : Span)
  /-- With the name of a function and the parenthesis of its arguments. -/
  | call (name : Span) (qualifier : Option Text) (function : Text)

/-- Takes one token; an error gives the tokens from the first unacceptable one on. -/
def Token.expect (lexeme : Lexeme) : List Token → Except (List Token) (Span × List Token)
  | [] => .error []
  | token :: rest =>
    if token.lexeme = lexeme then .ok (token.span, rest) else .error (token :: rest)

/-- An expected token is found exactly where it stands. -/
theorem Token.expect_eq_ok_iff {lexeme : Lexeme} {tokens rest : List Token} {span : Span} :
    Token.expect lexeme tokens = .ok (span, rest) ↔ tokens = ⟨lexeme, span⟩ :: rest := by
  cases tokens with
  | nil => simp [Token.expect]
  | cons token tail =>
    obtain ⟨found, place⟩ := token
    rw [Token.expect]
    split
    · rename_i eq
      subst eq
      simp
    · rename_i ne
      simp_all

/-- An expected token that does not stand there is missed where it should stand. -/
theorem Token.eq_of_expect_error {lexeme : Lexeme} {tokens rest : List Token}
    (h : Token.expect lexeme tokens = .error rest) : rest = tokens := by
  cases tokens with
  | nil => exact (Except.error.inj h).symm
  | cons token tail =>
    rw [Token.expect] at h
    split at h
    · simp at h
    · exact (Except.error.inj h).symm

/-- What is left after an expected token is shorter. -/
theorem Token.length_lt_of_expect {lexeme : Lexeme} {tokens rest : List Token} {span : Span}
    (h : Token.expect lexeme tokens = .ok (span, rest)) : rest.length < tokens.length := by
  rw [Token.expect_eq_ok_iff.1 h]
  exact Nat.lt_succ_self _

/-- A node test at the start of some tokens. A name in front of a colon is its qualifier. -/
def NodeTest.ofTokens : List Token → Except (List Token) (NodeTest × List Token)
  | ⟨.name first, span⟩ :: ⟨.colon, _⟩ :: rest =>
    match rest with
    | ⟨.name label, last⟩ :: rest => .ok (.name (span.through last) (some first) label, rest)
    | ⟨.star, last⟩ :: rest => .ok (.name (span.through last) (some first) ['*'], rest)
    | rest => .error rest
  | ⟨.name label, span⟩ :: rest => .ok (.name span none label, rest)
  | ⟨.star, span⟩ :: rest => .ok (.name span none ['*'], rest)
  | ⟨.nodeType label, span⟩ :: rest => do
    let (_, rest) ← Token.expect .openParen rest
    match rest with
    | ⟨.literal value, _⟩ :: rest =>
      let (last, rest) ← Token.expect .closeParen rest
      return (.type (span.through last) label (some value), rest)
    | rest =>
      let (last, rest) ← Token.expect .closeParen rest
      return (.type (span.through last) label none, rest)
  | rest => .error rest

/-- What is left after a node test is shorter. -/
theorem NodeTest.length_lt_of_ofTokens {tokens rest : List Token} {test : NodeTest}
    (h : NodeTest.ofTokens tokens = .ok (test, rest)) : rest.length < tokens.length := by
  unfold NodeTest.ofTokens at h
  split at h
  · split at h <;> simp_all <;> omega
  · simp_all
  · simp_all
  · obtain ⟨⟨opening, inner⟩, opened, inside⟩ := bind_eq_ok_iff.1 h
    obtain rfl := Token.expect_eq_ok_iff.1 opened
    dsimp only at inside
    split at inside
    · obtain ⟨⟨last, after⟩, closed, eq⟩ := bind_eq_ok_iff.1 inside
      obtain rfl := Token.expect_eq_ok_iff.1 closed
      obtain ⟨-, rfl⟩ := Prod.mk.inj (Except.ok.inj eq)
      simp only [List.length_cons]
      omega
    · obtain ⟨⟨last, after⟩, closed, eq⟩ := bind_eq_ok_iff.1 inside
      obtain rfl := Token.expect_eq_ok_iff.1 closed
      obtain ⟨-, rfl⟩ := Prod.mk.inj (Except.ok.inj eq)
      simp only [List.length_cons]
      omega
  · simp at h

/-- The name of a variable at the start of some tokens, after its dollar sign. -/
def Opening.variableOfTokens (dollar : Span) : List Token → Except (List Token) (Node × List Token)
  | ⟨.name first, _⟩ :: ⟨.colon, _⟩ :: rest =>
    match rest with
    | ⟨.name name, last⟩ :: rest => .ok (.variable (dollar.through last) (some first) name, rest)
    | rest => .error rest
  | ⟨.name name, last⟩ :: rest => .ok (.variable (dollar.through last) none name, rest)
  | rest => .error rest

/-- What is left after the name of a variable is shorter. -/
theorem Opening.length_lt_of_variableOfTokens {dollar : Span} {tokens rest : List Token}
    {node : Node} (h : Opening.variableOfTokens dollar tokens = .ok (node, rest)) :
    rest.length < tokens.length := by
  unfold Opening.variableOfTokens at h
  split at h
  · split at h
    · simp_all
      omega
    · simp at h
  · simp_all
  · simp at h

/-- Whether a step can start with some tokens. -/
def Opening.canStart : List Token → Bool
  | [] => false
  | token :: _ =>
    match token.lexeme with
    | .name _ | .star | .nodeType _ | .atSign | .dot | .dots => true
    | .dollar | .openParen | .literal _ | .float _ | .integer _ => true
    | _ => false

/-- How the step at the start of some tokens starts. -/
def Opening.ofTokens : List Token → Except (List Token) (Opening × List Token)
  | ⟨.dot, span⟩ :: rest => .ok (.head (.dots span ['.']), rest)
  | ⟨.dots, span⟩ :: rest => .ok (.head (.dots span ['.', '.']), rest)
  | ⟨.literal value, span⟩ :: rest => .ok (.head (.primary (.literal span (.text value))), rest)
  | ⟨.float value, span⟩ :: rest => .ok (.head (.primary (.literal span (.float value))), rest)
  | ⟨.integer value, span⟩ :: rest => .ok (.head (.primary (.literal span (.integer value))), rest)
  | ⟨.dollar, span⟩ :: rest => do
    let (reference, rest) ← Opening.variableOfTokens span rest
    return (.head (.primary reference), rest)
  -- The empty sequence is complete; other parentheses are only opened.
  | ⟨.openParen, span⟩ :: ⟨.closeParen, last⟩ :: rest =>
    .ok (.head (.primary (.sequence (span.through last) [])), rest)
  | ⟨.openParen, span⟩ :: rest => .ok (.group span, rest)
  -- A name in front of a parenthesis is a function, and no node test.
  | ⟨.name name, span⟩ :: ⟨.openParen, _⟩ :: ⟨.closeParen, last⟩ :: rest =>
    .ok (.head (.primary (.call (span.through last) none name [])), rest)
  | ⟨.name name, span⟩ :: ⟨.openParen, _⟩ :: rest => .ok (.call span none name, rest)
  | ⟨.name first, span⟩ :: ⟨.colon, _⟩ :: ⟨.name name, _⟩ :: ⟨.openParen, _⟩ ::
      ⟨.closeParen, last⟩ :: rest =>
    .ok (.head (.primary (.call (span.through last) (some first) name [])), rest)
  | ⟨.name first, span⟩ :: ⟨.colon, _⟩ :: ⟨.name name, _⟩ :: ⟨.openParen, _⟩ :: rest =>
    .ok (.call span (some first) name, rest)
  -- What is left are steps, with an axis or with a node test alone.
  | ⟨.atSign, span⟩ :: rest => do
    let (test, rest) ← NodeTest.ofTokens rest
    return (.head (.step span.start .attribute test), rest)
  | ⟨.name axis, span⟩ :: ⟨.axisMark, _⟩ :: rest => do
    let (test, rest) ← NodeTest.ofTokens rest
    return (.head (.step span.start (.named axis) test), rest)
  | tokens => do
    let (test, rest) ← NodeTest.ofTokens tokens
    return (.head (.step test.span.start .unwritten test), rest)

/-- What is left after the opening of a step is shorter. -/
theorem Opening.length_lt_of_ofTokens {tokens rest : List Token} {start : Opening}
    (h : Opening.ofTokens tokens = .ok (start, rest)) : rest.length < tokens.length := by
  unfold Opening.ofTokens at h
  split at h
  case h_6 =>
    obtain ⟨⟨reference, behind⟩, found, eq⟩ := bind_eq_ok_iff.1 h
    obtain ⟨-, rfl⟩ := Prod.mk.inj (Except.ok.inj eq)
    exact Nat.lt_succ_of_lt (Opening.length_lt_of_variableOfTokens found)
  case h_13 =>
    obtain ⟨⟨test, behind⟩, found, eq⟩ := bind_eq_ok_iff.1 h
    obtain ⟨-, rfl⟩ := Prod.mk.inj (Except.ok.inj eq)
    exact Nat.lt_succ_of_lt (NodeTest.length_lt_of_ofTokens found)
  case h_14 =>
    obtain ⟨⟨test, behind⟩, found, eq⟩ := bind_eq_ok_iff.1 h
    obtain ⟨-, rfl⟩ := Prod.mk.inj (Except.ok.inj eq)
    exact Nat.lt_succ_of_lt (Nat.lt_succ_of_lt (NodeTest.length_lt_of_ofTokens found))
  case h_15 =>
    obtain ⟨⟨test, behind⟩, found, eq⟩ := bind_eq_ok_iff.1 h
    obtain ⟨-, rfl⟩ := Prod.mk.inj (Except.ok.inj eq)
    exact NodeTest.length_lt_of_ofTokens found
  all_goals
    simp only [Except.ok.injEq, Prod.mk.injEq] at h
    simp only [← h.2, List.length_cons]
    omega

end LocationPath
