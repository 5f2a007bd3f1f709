import LocationPath.Proofs.Decomposition.Outermost
import LocationPath.Proofs.Grammar.Closing
import LocationPath.Proofs.Grammar.Move
import LocationPath.Proofs.Lexing.Edges

/-! # Steps as fronts with predicates

Every derivation of a step is a **front** with predicates behind it: a node test with or without an
axis, dots, or a primary expression. The own text of the step is that of its front.

Main definitions: `Front`, `Front.step` and `Front.move`. Main results: `Front.exists_step`,
`Front.ownText_step` and `Derivation.exists_step_of_mem_outermost`. -/

namespace LocationPath

/-- What a step is without its predicates. -/
inductive Front where
  /-- A node test alone. -/
  | unwritten (test : Derivation .nodeTest)
  /-- A node test on the attribute axis. -/
  | signed (sign : Span) (test : Derivation .nodeTest)
  /-- A node test on an axis with a name. -/
  | namedAxis (axis : Text) (name mark : Span) (test : Derivation .nodeTest)
  | self (dot : Span)
  | parent (dots : Span)
  | primary (base : Derivation .primary)

namespace Front

/-- The tokens of a front. -/
def tokens : Front → List Token
  | .unwritten test => test.tokens
  | .signed sign test => ⟨.atSign, sign⟩ :: test.tokens
  | .namedAxis axis name mark test => ⟨.name axis, name⟩ :: ⟨.axisMark, mark⟩ :: test.tokens
  | .self dot => [⟨.dot, dot⟩]
  | .parent dots => [⟨.dots, dots⟩]
  | .primary base => base.tokens

/-- The place of a front. -/
def span : Front → Span
  | .unwritten test => test.value.span
  | .signed sign test => sign.through test.value.span
  | .namedAxis _ name _ test => name.through test.value.span
  | .self dot => dot
  | .parent dots => dots
  | .primary base => Node.span base.value

/-- The derivation of a step with a front and predicates. -/
def step (conditions : Derivation .predicates) : Front → Derivation (.level .step)
  | .unwritten test => .axisStep (.testStep test conditions)
  | .signed sign test => .axisStep (.attributeStep sign test conditions)
  | .namedAxis axis name mark test => .axisStep (.namedAxisStep axis name mark test conditions)
  | .self dot => .axisStep (.selfStep dot conditions)
  | .parent dots => .axisStep (.parentStep dots conditions)
  | .primary base => .filterStep (.filtered base conditions)

/-- Whether a front is one dot or two. -/
def isDots : Front → Bool
  | .self _ | .parent _ => true
  | _ => false

/-- The dots of a front that is dots. -/
def abbreviation? : Front → Option Text
  | .self _ => some ['.']
  | .parent _ => some ['.', '.']
  | _ => none

/-- Dots are not trimmed away. -/
theorem head?_trim_of_abbreviation? {front : Front} {dots : Text}
    (h : front.abbreviation? = some dots) : dots.trim.head? = some '.' := by
  obtain rfl | rfl : dots = ['.'] ∨ dots = ['.', '.'] := by
    cases front <;> simp_all [abbreviation?]
  · decide +kernel
  · decide +kernel

/-- Every step has a front. -/
theorem exists_step (derivation : Derivation (.level .step)) :
    ∃ (front : Front) (conditions : Derivation .predicates),
      derivation = front.step conditions := by
  cases derivation with
  | axisStep step =>
    cases step with
    | testStep test conditions => exact ⟨.unwritten test, conditions, rfl⟩
    | attributeStep sign test conditions => exact ⟨.signed sign test, conditions, rfl⟩
    | namedAxisStep axis name mark test conditions =>
      exact ⟨.namedAxis axis name mark test, conditions, rfl⟩
    | selfStep dot conditions => exact ⟨.self dot, conditions, rfl⟩
    | parentStep dots conditions => exact ⟨.parent dots, conditions, rfl⟩
  | filterStep step =>
    cases step with
    | filtered base conditions => exact ⟨.primary base, conditions, rfl⟩

/-! ## Tokens -/

/-- The tokens of a step are those of its front and of its predicates. -/
@[simp] theorem tokens_step (front : Front) (conditions : Derivation .predicates) :
    (front.step conditions).tokens = front.tokens ++ conditions.tokens := by
  cases front <;> simp [step, tokens, Derivation.tokens]

/-- A front begins as a step does. -/
theorem exists_first (front : Front) :
    ∃ token rest, front.tokens = token :: rest ∧ token.lexeme.startsStep = true := by
  obtain ⟨token, rest, eq, opens⟩ := (front.step .noPredicate).exists_first
  rw [tokens_step, Derivation.tokens, List.append_nil] at eq
  refine ⟨token, rest, eq, ?_⟩
  cases lexeme_eq : token.lexeme <;> simp_all [Level.opens, Level.height]

/-- A front ends as a step does. -/
theorem exists_last (front : Front) :
    ∃ earlier token, front.tokens = earlier ++ [token] ∧ token.lexeme.endsStep = true := by
  obtain ⟨earlier, token, eq, ends⟩ := (front.step .noPredicate).exists_last_steps (by decide)
  rw [tokens_step, Derivation.tokens, List.append_nil] at eq
  exact ⟨earlier, token, eq, ends⟩

/-- A front goes from its first token through its last one. -/
theorem covers (front : Front) (order : Token.InOrder front.tokens) :
    front.span.Covers front.tokens := by
  cases front with
  | unwritten test => exact test.nests order
  | signed sign test =>
    exact Span.Covers.cons ⟨.atSign, sign⟩ (test.nests order.tail)
  | namedAxis axis name mark test =>
    have tested := test.nests order.tail.tail
    exact (Span.Covers.cons ⟨.axisMark, mark⟩ tested).cons ⟨.name axis, name⟩
  | self dot => exact Span.covers_singleton ⟨.dot, dot⟩
  | parent dots => exact Span.covers_singleton ⟨.dots, dots⟩
  | primary base => exact (base.nests order).1

/-- The text from the first token of a front through the last one is the front. -/
theorem tokenized_cut {text : Text} {front : Front} {before behind : List Token}
    (h : Tokenized false 0 text (before ++ (front.tokens ++ behind))) :
    Tokenized (Token.endsOperand false before) front.span.start (front.span.cut text)
        front.tokens ∧
      front.span.start + (front.span.cut text).length = front.span.stop := by
  have covers := front.covers h.inOrder.right.left
  obtain ⟨earlier, last, last_eq, ends⟩ := front.exists_last
  refine h.cut covers fun token mem => ?_
  rw [last_eq, List.getLast?_concat] at mem
  exact Option.mem_some.1 mem ▸ Lexeme.no_type_of_endsStep ends

/-- A front that is a token of dots is dots. -/
theorem of_tokens_eq_singleton {front : Front} {lexeme : Lexeme} {span : Span}
    (h : front.tokens = [⟨lexeme, span⟩]) (dotted : lexeme = .dot ∨ lexeme = .dots) :
    lexeme = .dot ∧ front = .self span ∨ lexeme = .dots ∧ front = .parent span := by
  cases front with
  | self dot =>
    obtain ⟨rfl, rfl⟩ : Lexeme.dot = lexeme ∧ dot = span := by simpa [tokens] using h
    exact .inl ⟨rfl, rfl⟩
  | parent dots =>
    obtain ⟨rfl, rfl⟩ : Lexeme.dots = lexeme ∧ dots = span := by simpa [tokens] using h
    exact .inr ⟨rfl, rfl⟩
  | unwritten test =>
    obtain ⟨absurd, -⟩ | ⟨token, rest, eq, opens⟩ := test.hasFirst
    · simp at absurd
    · rw [tokens, eq, List.cons.injEq] at h
      rw [h.1] at opens
      obtain rfl | rfl := dotted <;> simp [Phrase.opens] at opens
  | signed | namedAxis =>
    obtain rfl | rfl := dotted <;> simp [tokens] at h
  | primary base =>
    -- Calls are too long, and the other primary expressions are other lexemes.
    have length := congrArg List.length h
    cases base with
    | emptyCall | call =>
      simp only [tokens, Derivation.tokens, List.length_append, List.length_cons,
        List.length_nil] at length
      omega
    | _ => obtain rfl | rfl := dotted <;> simp [tokens, Derivation.tokens] at h

/-! ## What is built -/

/-- A step is its own outermost step. -/
theorem outermost_step (front : Front) (conditions : Derivation .predicates) :
    Node.outermost (front.step conditions).value = [(front.step conditions).value] := by
  cases front with
  | primary base =>
    simp only [step, Derivation.value]
    split
    · cases base <;> rfl
    · rfl
  | _ => rfl

/-- The predicates of a step. -/
theorem ownPredicates_step (front : Front) (conditions : Derivation .predicates) :
    Node.ownPredicates (front.step conditions).value = conditions.value := by
  cases front with
  | primary base =>
    simp only [step, Derivation.value]
    split
    · rename_i empty
      rw [List.isEmpty_iff.1 empty]
      cases base <;> rfl
    · rfl
  | _ => rfl

/-- The own text of a step is that of its front; dots stand for themselves. -/
theorem ownText_step (source : Text) (front : Front) (conditions : Derivation .predicates) :
    Node.ownText source (front.step conditions).value =
      front.abbreviation?.getD (front.span.cut source) := by
  cases front with
  | primary base =>
    simp only [step, Derivation.value, span, abbreviation?, Option.getD_none]
    split
    · cases base <;> rfl
    · rfl
  | unwritten | signed | namedAxis =>
    simp only [step, Derivation.value, Node.ownText, Derivation.spanThrough]
    rfl
  | self | parent => rfl

/-! ## Fronts at other places -/

/-- The front at another place. -/
def move (starts stops : Nat → Nat) : Front → Front
  | .unwritten test => .unwritten (test.move starts stops)
  | .signed sign test => .signed (sign.move starts stops) (test.move starts stops)
  | .namedAxis axis name mark test =>
    .namedAxis axis (name.move starts stops) (mark.move starts stops) (test.move starts stops)
  | .self dot => .self (dot.move starts stops)
  | .parent dots => .parent (dots.move starts stops)
  | .primary base => .primary (base.move starts stops)

variable (starts stops : Nat → Nat)

/-- The tokens of a front go with it. -/
theorem tokens_move (front : Front) :
    (front.move starts stops).tokens = front.tokens.map (Token.move starts stops) := by
  cases front <;> simp [move, tokens, Derivation.tokens_move, Token.move]

/-- The span of a front goes with it. -/
theorem span_move (front : Front) :
    (front.move starts stops).span = front.span.move starts stops := by
  cases front with
  | unwritten test | signed sign test | namedAxis axis name mark test =>
    have moved := test.value_move starts stops
    simp only [Phrase.moveValue] at moved
    simp [move, span, moved]
  | self | parent => rfl
  | primary base =>
    have moved := base.value_move starts stops
    simp only [Phrase.moveValue] at moved
    simp [move, span, moved]

/-- A front is dots wherever it stands. -/
@[simp] theorem isDots_move (front : Front) : (front.move starts stops).isDots = front.isDots := by
  cases front <;> rfl

/-- Dots are the same wherever they stand. -/
@[simp] theorem abbreviation?_move (front : Front) :
    (front.move starts stops).abbreviation? = front.abbreviation? := by
  cases front <;> rfl

end Front

/-! ## The steps of an expression -/

namespace Derivation

/-- What `exists_step_of_mem_outermost` says of one derivation. -/
def StepsInside : {phrase : Phrase} → Derivation phrase → Prop
  | .level _, derivation => ∀ node ∈ Node.outermost derivation.value,
    ∃ (front : Front) (conditions : Derivation .predicates),
      (front.step conditions).value = node ∧
        (front.step conditions).tokens <:+: derivation.tokens
  | _, _ => True

/-- The steps inside a part of an expression are inside the expression. -/
private theorem StepsInside.of_part {part whole : Level} {inner : Derivation (.level part)}
    {derivation : Derivation (.level whole)} (h : inner.StepsInside)
    (subset : Node.outermost derivation.value ⊆ Node.outermost inner.value)
    (infix_tokens : inner.tokens <:+: derivation.tokens) : derivation.StepsInside := by
  intro node mem
  obtain ⟨front, conditions, value_eq, inside⟩ := h node (subset mem)
  exact ⟨front, conditions, value_eq, inside.trans infix_tokens⟩

/-- A step is inside itself. -/
private theorem stepsInside_step (derivation : Derivation (.level .step)) :
    derivation.StepsInside := by
  intro node mem
  obtain ⟨front, conditions, rfl⟩ := Front.exists_step derivation
  rw [Front.outermost_step] at mem
  exact ⟨front, conditions, (List.mem_singleton.1 mem).symm, List.infix_refl _⟩

/-- The steps of every expression are inside it. -/
theorem stepsInside {phrase : Phrase} (derivation : Derivation phrase) :
    derivation.StepsInside := by
  induction derivation with
  | operand only ih | unnegated only ih | relative only ih =>
    exact ih.of_part (List.Subset.refl _) (List.infix_refl _)
  | link left op joins right ihl ihr =>
    intro node mem
    obtain mem | mem := List.mem_append.1 mem
    · obtain ⟨front, conditions, value_eq, inside⟩ := ihl node mem
      exact ⟨front, conditions, value_eq, inside.trans (List.prefix_append _ _).isInfix⟩
    · obtain ⟨front, conditions, value_eq, inside⟩ := ihr node mem
      refine ⟨front, conditions, value_eq, inside.trans (List.IsSuffix.isInfix ?_)⟩
      exact (List.suffix_cons _ _).trans (List.suffix_append _ _)
  | negated | absolute | anywhere =>
    rename_i ih
    exact ih.of_part (List.Subset.refl _) (List.suffix_cons _ _).isInfix
  | root slash => exact fun node mem => absurd mem List.not_mem_nil
  | axisStep step | filterStep step => exact stepsInside_step _
  | _ => trivial

/-- The outermost steps of an expression are derived from some of its tokens. -/
theorem exists_step_of_mem_outermost {level : Level} (derivation : Derivation (.level level))
    {node : Node} (mem : node ∈ Node.outermost derivation.value) :
    ∃ (front : Front) (conditions : Derivation .predicates),
      (front.step conditions).value = node ∧
        (front.step conditions).tokens <:+: derivation.tokens :=
  derivation.stepsInside node mem

end Derivation

end LocationPath
