import LocationPath.Proofs.Placement.Nesting
import Mathlib.Logic.Function.Basic

/-! # Derivations at other places

A derivation can be moved to the same lexemes at other places, and it builds the same there but for
the spans. Since tokens in order start at different positions, and stop at different ones, their new
places are given by where the starts and the stops go.

Main definitions: `Span.move`, `Derivation.move`. Main results: `Derivation.tokens_move`,
`Derivation.value_move` and `Token.exists_move`. -/

namespace LocationPath

variable (starts stops : Nat → Nat)

/-- A span whose start and stop have gone to other positions. -/
def Span.move (span : Span) : Span := ⟨starts span.start, stops span.stop⟩

/-- A token at another place. -/
def Token.move (token : Token) : Token := ⟨token.lexeme, token.span.move starts stops⟩

@[simp] theorem Span.start_move (span : Span) :
    (span.move starts stops).start = starts span.start := rfl

@[simp] theorem Span.stop_move (span : Span) :
    (span.move starts stops).stop = stops span.stop := rfl

@[simp] theorem Token.lexeme_move (token : Token) :
    (token.move starts stops).lexeme = token.lexeme := rfl

/-- The span through another one goes with both. -/
@[simp] theorem Span.through_move (first last : Span) :
    (first.move starts stops).through (last.move starts stops) =
      (first.through last).move starts stops := rfl

namespace Derivation

/-- A derivation at another place. -/
def move : {phrase : Phrase} → Derivation phrase → Derivation phrase
  | _, .operand only => .operand only.move
  | _, .link left op joins right => .link left.move (op.move starts stops) joins right.move
  | _, .negated minus negative => .negated (minus.move starts stops) negative.move
  | _, .unnegated union => .unnegated union.move
  | _, .relative steps => .relative steps.move
  | _, .root slash => .root (slash.move starts stops)
  | _, .absolute slash steps => .absolute (slash.move starts stops) steps.move
  | _, .anywhere slashes steps => .anywhere (slashes.move starts stops) steps.move
  | _, .axisStep step => .axisStep step.move
  | _, .filterStep step => .filterStep step.move
  | _, .testStep test conditions => .testStep test.move conditions.move
  | _, .attributeStep sign test conditions =>
    .attributeStep (sign.move starts stops) test.move conditions.move
  | _, .namedAxisStep axis name mark test conditions =>
    .namedAxisStep axis (name.move starts stops) (mark.move starts stops) test.move conditions.move
  | _, .selfStep dot conditions => .selfStep (dot.move starts stops) conditions.move
  | _, .parentStep dots conditions => .parentStep (dots.move starts stops) conditions.move
  | _, .nameTest name => .nameTest name.move
  | _, .anyTest star => .anyTest (star.move starts stops)
  | _, .anyQualifiedTest qualifier first colon star =>
    .anyQualifiedTest qualifier (first.move starts stops) (colon.move starts stops)
      (star.move starts stops)
  | _, .typeTest type name opening closing =>
    .typeTest type (name.move starts stops) (opening.move starts stops)
      (closing.move starts stops)
  | _, .typeTestFor type name opening value literal closing =>
    .typeTestFor type (name.move starts stops) (opening.move starts stops) value
      (literal.move starts stops) (closing.move starts stops)
  | _, .plainName name span => .plainName name (span.move starts stops)
  | _, .prefixedName qualifier name first colon last =>
    .prefixedName qualifier name (first.move starts stops) (colon.move starts stops)
      (last.move starts stops)
  | _, .noPredicate => .noPredicate
  | _, .morePredicates earlier last => .morePredicates earlier.move last.move
  | _, .predicate opening condition closing =>
    .predicate (opening.move starts stops) condition.move (closing.move starts stops)
  | _, .filtered base conditions => .filtered base.move conditions.move
  | _, .reference dollar name => .reference (dollar.move starts stops) name.move
  | _, .group opening inner closing =>
    .group (opening.move starts stops) inner.move (closing.move starts stops)
  | _, .emptySequence opening closing =>
    .emptySequence (opening.move starts stops) (closing.move starts stops)
  | _, .text value span => .text value (span.move starts stops)
  | _, .float value span => .float value (span.move starts stops)
  | _, .integer value span => .integer value (span.move starts stops)
  | _, .emptyCall name opening closing =>
    .emptyCall name.move (opening.move starts stops) (closing.move starts stops)
  | _, .call name opening arguments closing =>
    .call name.move (opening.move starts stops) arguments.move (closing.move starts stops)
  | _, .argument only => .argument only.move
  | _, .moreArguments earlier comma last =>
    .moreArguments earlier.move (comma.move starts stops) last.move

/-- The tokens of a derivation go with it. -/
theorem tokens_move {phrase : Phrase} (derivation : Derivation phrase) :
    (derivation.move starts stops).tokens = derivation.tokens.map (Token.move starts stops) := by
  induction derivation <;> simp_all [move, tokens, Token.move]

end Derivation

/-! ## What is built -/

/-- The node test of a step goes with it. -/
@[simp] theorem NodeTest.span_mapSpan (f : Span → Span) (test : NodeTest) :
    (test.mapSpan f).span = f test.span := by
  cases test <;> rfl

/-- The expressions between commas go with the whole expression. -/
theorem Node.commaItems_mapSpan (f : Span → Span) (node : Node) :
    (node.mapSpan f).commaItems = node.commaItems.map (mapSpan f) := by
  fun_induction commaItems node with
  | case1 span left right ihl ihr => simp [mapSpan, commaItems, ihl, ihr]
  | case2 span left op right ne => simp [mapSpan, commaItems, ne]
  | case3 node no_binary =>
    cases node with
    | binary span left op right => exact absurd rfl (no_binary span left op right)
    | _ => simp [mapSpan, commaItems]

/-- What a phrase stands for, at another place. -/
def Phrase.moveValue : (phrase : Phrase) → phrase.Value → phrase.Value
  | .level _, node | .axisStep, node | .filter, node | .predicate, node | .primary, node =>
    Node.mapSpan (Span.move starts stops) node
  | .nodeTest, test => NodeTest.mapSpan (Span.move starts stops) test
  | .qualifiedName, name =>
    QualifiedName.mk name.qualifier name.name (name.span.move starts stops)
  | .predicates, nodes | .arguments, nodes =>
    List.map (Node.mapSpan (Span.move starts stops)) nodes

namespace Derivation

/-- The span of a head with predicates goes with both. -/
@[simp] theorem spanThrough_move (start stop : Nat) (predicates : List Node) :
    spanThrough (starts start) (stops stop)
        (predicates.map (Node.mapSpan (Span.move starts stops))) =
      (spanThrough start stop predicates).move starts stops := by
  rw [spanThrough, spanThrough, Span.move, List.getLast?_map]
  cases predicates.getLast? <;> simp [Span.move]

/-- **A derivation builds the same at another place**, but for the spans. -/
theorem value_move {phrase : Phrase} (derivation : Derivation phrase) :
    (derivation.move starts stops).value = phrase.moveValue starts stops derivation.value := by
  induction derivation with
  | operand only ih | unnegated only ih | relative only ih | axisStep only ih
  | filterStep only ih => exact ih
  | filtered base conditions ihb ihc =>
    simp only [Phrase.moveValue] at ihb ihc
    simp only [move, value, Phrase.moveValue, ihb, ihc, List.isEmpty_map, Node.span_mapSpan,
      Span.start_move, Span.stop_move, spanThrough_move]
    split
    · rfl
    · rw [Node.mapSpan, Node.mapSpanAll_eq_map]
  | group opening inner closing ih =>
    simp only [Phrase.moveValue] at ih
    simp [move, value, Phrase.moveValue, Node.mapSpan, Node.mapSpanAll_eq_map, ih,
      Node.commaItems_mapSpan]
  | nameTest | anyTest | anyQualifiedTest | typeTest | typeTestFor =>
    simp_all [move, value, Phrase.moveValue, NodeTest.mapSpan]
  | _ => simp_all [move, value, Phrase.moveValue, Node.mapSpan, Node.mapSpanAll_eq_map]

/-- A derivation of an expression builds the same tree at another place. -/
theorem value_move_level {level : Level} (derivation : Derivation (.level level)) :
    (derivation.move starts stops).value =
      Node.mapSpan (Span.move starts stops) derivation.value :=
  value_move starts stops derivation

end Derivation

/-! ## The same lexemes at other places -/

/-- Tokens in order can be moved to any places. -/
theorem Token.exists_move {tokens tokens' : List Token} (order : InOrder tokens)
    (lexemes : tokens'.map (·.lexeme) = tokens.map (·.lexeme)) :
    ∃ starts stops, tokens' = tokens.map (move starts stops) := by
  induction tokens generalizing tokens' with
  | nil => exact ⟨id, id, by simpa using lexemes⟩
  | cons token tokens ih =>
    obtain ⟨⟨lexeme, place⟩, behind, rfl, eq, lexemes⟩ := List.map_eq_cons_iff.1 lexemes
    obtain ⟨lt, order, cross⟩ := InOrder.cons_iff.1 order
    obtain ⟨starts, stops, rfl⟩ := ih order lexemes
    refine ⟨Function.update starts token.span.start place.start,
      Function.update stops token.span.stop place.stop, ?_⟩
    rw [List.map_cons]
    refine congrArg₂ List.cons ?_ (List.map_congr_left fun other mem => ?_)
    · rw [move, Span.move, Function.update_self, Function.update_self]
      exact congrArg (Token.mk · place) eq
    · have apart := cross other mem
      have other_lt := order.start_lt_stop other mem
      rw [move, move, Span.move, Span.move, Function.update_of_ne (by omega),
        Function.update_of_ne (by omega)]

/-- A derivation of tokens in order has its like on the same lexemes at other places. -/
theorem Derivation.exists_of_lexemes_eq {level : Level} (derivation : Derivation (.level level))
    (order : Token.InOrder derivation.tokens) {tokens : List Token}
    (lexemes : tokens.map (·.lexeme) = derivation.tokens.map (·.lexeme)) :
    ∃ (starts stops : Nat → Nat) (moved : Derivation (.level level)), moved.tokens = tokens ∧
      moved.value = Node.mapSpan (Span.move starts stops) derivation.value := by
  obtain ⟨starts, stops, rfl⟩ := Token.exists_move order lexemes
  exact ⟨starts, stops, derivation.move starts stops, derivation.tokens_move starts stops,
    derivation.value_move_level starts stops⟩

end LocationPath
