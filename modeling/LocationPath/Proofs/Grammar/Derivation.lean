import LocationPath.Node.Parser

/-! # Derivations

The grammar of expressions, as the type of its derivation trees. A **phrase** is what stands on the
left of a production, and a derivation of a phrase is a production with derivations of the phrases
on its right and with the tokens between them. A production asks of a token only of what class it
is; its value and its place are free.

Chains are left recursive, and so are predicates and arguments: the production that goes on has the
phrase itself in front.

Main definitions: `Derivation`, `Derivation.tokens` (the tokens derived, in order) and
`Derivation.value` (what the productions build of them). -/

namespace LocationPath

/-- What the productions of the grammar have on their left side. -/
inductive Phrase where
  /-- An expression of a level. -/
  | level (level : Level)
  /-- A step with a node test or with dots, and its predicates. -/
  | axisStep
  /-- A primary expression and its predicates. -/
  | filter
  /-- What a step tests a node for. -/
  | nodeTest
  /-- A name that may have a qualifier. -/
  | qualifiedName
  /-- Predicates, or none. -/
  | predicates
  | predicate
  | primary
  /-- The arguments of a call, at least one. -/
  | arguments

/-- The phrase of whole expressions. -/
abbrev Phrase.expression : Phrase := .level (.chain .sequence)

/-- A name with its qualifier and its place. -/
structure QualifiedName where
  /-- The name in front of the colon, if there is one. -/
  qualifier : Option Text
  /-- The name itself. -/
  name : Text
  /-- The place of both. -/
  span : Span

/-- What a phrase stands for. -/
abbrev Phrase.Value : Phrase → Type
  | .level _ | .axisStep | .filter | .predicate | .primary => Node
  | .nodeTest => NodeTest
  | .qualifiedName => QualifiedName
  | .predicates | .arguments => List Node

/-- The derivation trees of a phrase; each constructor is a production. -/
inductive Derivation : Phrase → Type where
  /-- A chain may be one operand. -/
  | operand {chain : Chain} (only : Derivation (.level chain.operand)) :
    Derivation (.level (.chain chain))
  /-- A chain may go on with an operator and an operand. -/
  | link {chain : Chain} (left : Derivation (.level (.chain chain))) (op : Token)
    (joins : chain.joins op.lexeme = true) (right : Derivation (.level chain.operand)) :
    Derivation (.level (.chain chain))
  | negated (minus : Span) (negative : Derivation (.level .negation)) :
    Derivation (.level .negation)
  | unnegated (union : Derivation (.level (.chain .union))) : Derivation (.level .negation)
  | relative (steps : Derivation (.level (.chain .steps))) : Derivation (.level .path)
  | root (slash : Span) : Derivation (.level .path)
  | absolute (slash : Span) (steps : Derivation (.level (.chain .steps))) :
    Derivation (.level .path)
  | anywhere (slashes : Span) (steps : Derivation (.level (.chain .steps))) :
    Derivation (.level .path)
  | axisStep (step : Derivation .axisStep) : Derivation (.level .step)
  | filterStep (step : Derivation .filter) : Derivation (.level .step)
  | testStep (test : Derivation .nodeTest) (conditions : Derivation .predicates) :
    Derivation .axisStep
  | attributeStep (sign : Span) (test : Derivation .nodeTest)
    (conditions : Derivation .predicates) : Derivation .axisStep
  | namedAxisStep (axis : Text) (name mark : Span) (test : Derivation .nodeTest)
    (conditions : Derivation .predicates) : Derivation .axisStep
  | selfStep (dot : Span) (conditions : Derivation .predicates) : Derivation .axisStep
  | parentStep (dots : Span) (conditions : Derivation .predicates) : Derivation .axisStep
  | nameTest (name : Derivation .qualifiedName) : Derivation .nodeTest
  | anyTest (star : Span) : Derivation .nodeTest
  | anyQualifiedTest (qualifier : Text) (first colon star : Span) : Derivation .nodeTest
  | typeTest (type : Text) (name opening closing : Span) : Derivation .nodeTest
  | typeTestFor (type : Text) (name opening : Span) (value : Text) (literal closing : Span) :
    Derivation .nodeTest
  | plainName (name : Text) (span : Span) : Derivation .qualifiedName
  | prefixedName (qualifier name : Text) (first colon last : Span) : Derivation .qualifiedName
  | noPredicate : Derivation .predicates
  | morePredicates (earlier : Derivation .predicates) (last : Derivation .predicate) :
    Derivation .predicates
  | predicate (opening : Span) (condition : Derivation .expression) (closing : Span) :
    Derivation .predicate
  | filtered (base : Derivation .primary) (conditions : Derivation .predicates) :
    Derivation .filter
  | reference (dollar : Span) (name : Derivation .qualifiedName) : Derivation .primary
  | group (opening : Span) (inner : Derivation .expression) (closing : Span) :
    Derivation .primary
  | emptySequence (opening closing : Span) : Derivation .primary
  | text (value : Text) (span : Span) : Derivation .primary
  | float (value : Binary64) (span : Span) : Derivation .primary
  | integer (value : Nat) (span : Span) : Derivation .primary
  | emptyCall (name : Derivation .qualifiedName) (opening closing : Span) : Derivation .primary
  | call (name : Derivation .qualifiedName) (opening : Span) (arguments : Derivation .arguments)
    (closing : Span) : Derivation .primary
  | argument (only : Derivation (.level (.chain .disjunction))) : Derivation .arguments
  | moreArguments (earlier : Derivation .arguments) (comma : Span)
    (last : Derivation (.level (.chain .disjunction))) : Derivation .arguments

namespace Derivation

/-- The tokens that a derivation derives. -/
def tokens : {phrase : Phrase} → Derivation phrase → List Token
  | _, .operand only => only.tokens
  | _, .link left op _ right => left.tokens ++ op :: right.tokens
  | _, .negated minus negative => ⟨.minus, minus⟩ :: negative.tokens
  | _, .unnegated union => union.tokens
  | _, .relative steps => steps.tokens
  | _, .root slash => [⟨.slash, slash⟩]
  | _, .absolute slash steps => ⟨.slash, slash⟩ :: steps.tokens
  | _, .anywhere slashes steps => ⟨.slashes, slashes⟩ :: steps.tokens
  | _, .axisStep step => step.tokens
  | _, .filterStep step => step.tokens
  | _, .testStep test conditions => test.tokens ++ conditions.tokens
  | _, .attributeStep sign test conditions =>
    ⟨.atSign, sign⟩ :: (test.tokens ++ conditions.tokens)
  | _, .namedAxisStep axis name mark test conditions =>
    ⟨.name axis, name⟩ :: ⟨.axisMark, mark⟩ :: (test.tokens ++ conditions.tokens)
  | _, .selfStep dot conditions => ⟨.dot, dot⟩ :: conditions.tokens
  | _, .parentStep dots conditions => ⟨.dots, dots⟩ :: conditions.tokens
  | _, .nameTest name => name.tokens
  | _, .anyTest star => [⟨.star, star⟩]
  | _, .anyQualifiedTest qualifier first colon star =>
    [⟨.name qualifier, first⟩, ⟨.colon, colon⟩, ⟨.star, star⟩]
  | _, .typeTest type name opening closing =>
    [⟨.nodeType type, name⟩, ⟨.openParen, opening⟩, ⟨.closeParen, closing⟩]
  | _, .typeTestFor type name opening value literal closing =>
    [⟨.nodeType type, name⟩, ⟨.openParen, opening⟩, ⟨.literal value, literal⟩,
      ⟨.closeParen, closing⟩]
  | _, .plainName name span => [⟨.name name, span⟩]
  | _, .prefixedName qualifier name first colon last =>
    [⟨.name qualifier, first⟩, ⟨.colon, colon⟩, ⟨.name name, last⟩]
  | _, .noPredicate => []
  | _, .morePredicates earlier last => earlier.tokens ++ last.tokens
  | _, .predicate opening condition closing =>
    ⟨.openBracket, opening⟩ :: (condition.tokens ++ [⟨.closeBracket, closing⟩])
  | _, .filtered base conditions => base.tokens ++ conditions.tokens
  | _, .reference dollar name => ⟨.dollar, dollar⟩ :: name.tokens
  | _, .group opening inner closing =>
    ⟨.openParen, opening⟩ :: (inner.tokens ++ [⟨.closeParen, closing⟩])
  | _, .emptySequence opening closing => [⟨.openParen, opening⟩, ⟨.closeParen, closing⟩]
  | _, .text value span => [⟨.literal value, span⟩]
  | _, .float value span => [⟨.float value, span⟩]
  | _, .integer value span => [⟨.integer value, span⟩]
  | _, .emptyCall name opening closing =>
    name.tokens ++ [⟨.openParen, opening⟩, ⟨.closeParen, closing⟩]
  | _, .call name opening arguments closing =>
    name.tokens ++ ⟨.openParen, opening⟩ :: (arguments.tokens ++ [⟨.closeParen, closing⟩])
  | _, .argument only => only.tokens
  | _, .moreArguments earlier comma last => earlier.tokens ++ ⟨.comma, comma⟩ :: last.tokens

/-- The span from a position through the last of some predicates, or up to another position if
there are none. -/
def spanThrough (start stop : Nat) (predicates : List Node) : Span :=
  ⟨start, (predicates.getLast?.map (·.span.stop)).getD stop⟩

/-- What the productions of a derivation build. -/
def value : {phrase : Phrase} → Derivation phrase → phrase.Value
  | _, .operand only => only.value
  | _, .link left op _ right =>
    .binary (left.value.span.through right.value.span) left.value op.lexeme.value.plain right.value
  | _, .negated minus negative =>
    .unary (minus.through negative.value.span) ['-'] negative.value
  | _, .unnegated union => union.value
  | _, .relative steps => steps.value
  | _, .root slash => .root slash ['/']
  | _, .absolute slash steps => .absolute (slash.through steps.value.span) ['/'] steps.value
  | _, .anywhere slashes steps =>
    .absolute (slashes.through steps.value.span) ['/', '/'] steps.value
  | _, .axisStep step => step.value
  | _, .filterStep step => step.value
  | _, .testStep test conditions =>
    .step (spanThrough test.value.span.start test.value.span.stop conditions.value) .unwritten
      test.value conditions.value
  | _, .attributeStep sign test conditions =>
    .step (spanThrough sign.start test.value.span.stop conditions.value) .attribute
      test.value conditions.value
  | _, .namedAxisStep axis name _ test conditions =>
    .step (spanThrough name.start test.value.span.stop conditions.value) (.named axis)
      test.value conditions.value
  | _, .selfStep dot conditions =>
    .dots (spanThrough dot.start dot.stop conditions.value) ['.'] conditions.value
  | _, .parentStep dots conditions =>
    .dots (spanThrough dots.start dots.stop conditions.value) ['.', '.'] conditions.value
  | _, .nameTest name => .name name.value.span name.value.qualifier name.value.name
  | _, .anyTest star => .name star none ['*']
  | _, .anyQualifiedTest qualifier first _ star =>
    .name (first.through star) (some qualifier) ['*']
  | _, .typeTest type name _ closing => .type (name.through closing) type none
  | _, .typeTestFor type name _ value _ closing =>
    .type (name.through closing) type (some value)
  | _, .plainName name span => ⟨none, name, span⟩
  | _, .prefixedName qualifier name first _ last => ⟨some qualifier, name, first.through last⟩
  | _, .noPredicate => []
  | _, .morePredicates earlier last => earlier.value ++ [last.value]
  | _, .predicate opening condition closing => .predicate (opening.through closing) condition.value
  | _, .filtered base conditions =>
    -- Without predicates the primary expression is the step.
    if conditions.value.isEmpty then base.value
    else .filter (spanThrough base.value.span.start base.value.span.stop conditions.value)
      base.value conditions.value
  | _, .reference dollar name =>
    .variable (dollar.through name.value.span) name.value.qualifier name.value.name
  | _, .group opening inner closing =>
    -- The commas are taken apart again.
    .sequence (opening.through closing) inner.value.commaItems
  | _, .emptySequence opening closing => .sequence (opening.through closing) []
  | _, .text value span => .literal span (.text value)
  | _, .float value span => .literal span (.float value)
  | _, .integer value span => .literal span (.integer value)
  | _, .emptyCall name _ closing =>
    .call (name.value.span.through closing) name.value.qualifier name.value.name []
  | _, .call name _ arguments closing =>
    .call (name.value.span.through closing) name.value.qualifier name.value.name arguments.value
  | _, .argument only => [only.value]
  | _, .moreArguments earlier _ last => earlier.value ++ [last.value]

end Derivation

end LocationPath
