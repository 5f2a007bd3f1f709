import LocationPath.Proofs.Grammar.Unambiguity
import LocationPath.Proofs.Grammar.Reading

/-! # The heads of steps

A few tokens tell how a step starts, and they are read without going through the levels. The tokens
of a derived head are read as that head whatever predicates follow it, and each head that is read is
a derived one.

Main results: `NodeTest.ofTokens_tokens` and `NodeTest.exists_of_ofTokens` for node tests, and
`Opening.Begins` with `Opening.begins_of_ofTokens` for all openings. -/

namespace LocationPath

/-- The place of a head with predicates runs through the last of them. -/
theorem Head.spanWith_eq (head : Head) (predicates : List Node) :
    head.spanWith predicates =
      Derivation.spanThrough head.span.start head.span.stop predicates := by
  rw [spanWith, Derivation.spanThrough]
  cases predicates.getLast? <;> rfl

/-! ## Node tests -/

/-- The tokens of a node test are read as the node test. -/
theorem NodeTest.ofTokens_tokens (test : Derivation .nodeTest) {rest : List Token}
    (h : Phrase.nodeTest.Stops rest) :
    NodeTest.ofTokens (test.tokens ++ rest) = .ok (test.value, rest) := by
  cases test with
  | nameTest name =>
    cases name with
    | plainName name span =>
      cases rest with
      | nil => rfl
      | cons token tail =>
        obtain ⟨lexeme, place⟩ := token
        cases lexeme with
        | colon => exact absurd rfl (h _ rfl)
        | _ => rfl
    | prefixedName => rfl
  | anyTest | anyQualifiedTest | typeTest | typeTestFor => rfl

/-- A node test that is read is derived. -/
theorem NodeTest.exists_of_ofTokens {tokens rest : List Token} {test : NodeTest}
    (h : NodeTest.ofTokens tokens = .ok (test, rest)) :
    ∃ derivation : Derivation .nodeTest,
      derivation.tokens ++ rest = tokens ∧ derivation.value = test := by
  unfold ofTokens at h
  split at h
  · rename_i first span colon tail
    split at h
    · rename_i label last behind
      obtain ⟨rfl, rfl⟩ := Prod.mk.inj (Except.ok.inj h)
      exact ⟨.nameTest (.prefixedName first label span colon last), rfl, rfl⟩
    · rename_i last behind
      obtain ⟨rfl, rfl⟩ := Prod.mk.inj (Except.ok.inj h)
      exact ⟨.anyQualifiedTest first span colon last, rfl, rfl⟩
    · simp at h
  · rename_i label span tail _
    obtain ⟨rfl, rfl⟩ := Prod.mk.inj (Except.ok.inj h)
    exact ⟨.nameTest (.plainName label span), rfl, rfl⟩
  · rename_i span tail
    obtain ⟨rfl, rfl⟩ := Prod.mk.inj (Except.ok.inj h)
    exact ⟨.anyTest span, rfl, rfl⟩
  · rename_i label span tail
    obtain ⟨⟨opening, inner⟩, opened, inside⟩ := bind_eq_ok_iff.1 h
    obtain rfl := Token.expect_eq_ok_iff.1 opened
    dsimp only at inside
    -- There may be a literal between the parentheses.
    split at inside
    · rename_i value literal after
      obtain ⟨⟨closing, outer⟩, closed, eq⟩ := bind_eq_ok_iff.1 inside
      obtain rfl := Token.expect_eq_ok_iff.1 closed
      obtain ⟨rfl, rfl⟩ := Prod.mk.inj (Except.ok.inj eq)
      exact ⟨.typeTestFor label span opening value literal closing, rfl, rfl⟩
    · obtain ⟨⟨closing, outer⟩, closed, eq⟩ := bind_eq_ok_iff.1 inside
      obtain rfl := Token.expect_eq_ok_iff.1 closed
      obtain ⟨rfl, rfl⟩ := Prod.mk.inj (Except.ok.inj eq)
      exact ⟨.typeTest label span opening closing, rfl, rfl⟩
  · simp at h

namespace Opening

/-! ## The openings of derived steps -/

/-- The tokens of a node test in front of predicates are read as a step without an axis. -/
theorem ofTokens_testStep (test : Derivation .nodeTest) {conditions : Derivation .predicates}
    {rest : List Token} (h : Level.step.Stops rest) :
    ofTokens (test.tokens ++ (conditions.tokens ++ rest)) =
      .ok (.head (.step test.value.span.start .unwritten test.value), conditions.tokens ++ rest) := by
  have colon := Derivation.lexeme_ne_behind_head conditions h .colon rfl (by simp)
  have mark := Derivation.lexeme_ne_behind_head conditions h .axisMark rfl (by simp)
  have paren := Derivation.lexeme_ne_behind_head conditions h .openParen rfl (by simp)
  revert colon mark paren
  generalize conditions.tokens ++ rest = behind
  intro colon mark paren
  cases test with
  | nameTest name =>
    -- A name might be read as part of something else together with the lexeme behind it.
    cases behind with
    | nil => cases name <;> rfl
    | cons token tail =>
      obtain ⟨lexeme, place⟩ := token
      cases lexeme with
      | colon => exact absurd rfl (colon _ rfl)
      | axisMark => exact absurd rfl (mark _ rfl)
      | openParen => exact absurd rfl (paren _ rfl)
      | _ => cases name <;> rfl
  | anyTest | anyQualifiedTest | typeTest | typeTestFor => rfl

/-- The tokens of a node test behind the attribute sign are read as a step of the attribute axis. -/
theorem ofTokens_attributeStep (sign : Span) (test : Derivation .nodeTest)
    {conditions : Derivation .predicates} {rest : List Token} (h : Level.step.Stops rest) :
    ofTokens (⟨.atSign, sign⟩ :: (test.tokens ++ (conditions.tokens ++ rest))) =
      .ok (.head (.step sign.start .attribute test.value), conditions.tokens ++ rest) := by
  rw [ofTokens, NodeTest.ofTokens_tokens test (Derivation.lexeme_ne_behind_head _ h _ rfl (by simp))]
  rfl

/-- The tokens of a node test behind the name of an axis are read as a step of the axis. -/
theorem ofTokens_namedAxisStep (axis : Text) (name mark : Span) (test : Derivation .nodeTest)
    {conditions : Derivation .predicates} {rest : List Token} (h : Level.step.Stops rest) :
    ofTokens (⟨.name axis, name⟩ :: ⟨.axisMark, mark⟩ ::
        (test.tokens ++ (conditions.tokens ++ rest))) =
      .ok (.head (.step name.start (.named axis) test.value), conditions.tokens ++ rest) := by
  rw [ofTokens, NodeTest.ofTokens_tokens test (Derivation.lexeme_ne_behind_head _ h _ rfl (by simp))]
  rfl

/-- The tokens of a name behind a dollar sign are read as a reference. -/
theorem ofTokens_reference (dollar : Span) (name : Derivation .qualifiedName) {rest : List Token}
    (h : Phrase.qualifiedName.Stops rest) :
    ofTokens (⟨.dollar, dollar⟩ :: (name.tokens ++ rest)) =
      .ok (.head (.primary (Derivation.reference dollar name).value), rest) := by
  cases name with
  | plainName name span =>
    cases rest with
    | nil => rfl
    | cons token tail =>
      obtain ⟨lexeme, place⟩ := token
      cases lexeme with
      | colon => exact absurd rfl (h _ rfl)
      | _ => rfl
  | prefixedName => rfl

/-- A parenthesis in front of an expression is read as the opening of a group. -/
theorem ofTokens_group (paren : Span) (inner : Derivation .expression) (rest : List Token) :
    ofTokens (⟨.openParen, paren⟩ :: (inner.tokens ++ rest)) =
      .ok (.group paren, inner.tokens ++ rest) := by
  rw [ofTokens]
  intro closing behind eq
  exact inner.tokens_ne_cons (by simp) rfl eq

/-- A name in front of a pair of parentheses is read as a call without arguments. -/
theorem ofTokens_emptyCall (name : Derivation .qualifiedName) (paren closing : Span)
    (rest : List Token) :
    ofTokens (name.tokens ++ ⟨.openParen, paren⟩ :: ⟨.closeParen, closing⟩ :: rest) =
      .ok (.head (.primary (Derivation.emptyCall name paren closing).value), rest) := by
  cases name <;> rfl

/-- A name and a parenthesis in front of arguments are read as the opening of a call, from where the
name starts. -/
theorem ofTokens_call (name : Derivation .qualifiedName) (paren : Span)
    (arguments : Derivation .arguments) (rest : List Token) :
    ∃ place : Span, place.start = name.value.span.start ∧
      ofTokens (name.tokens ++ ⟨.openParen, paren⟩ :: (arguments.tokens ++ rest)) =
        .ok (.call place name.value.qualifier name.value.name, arguments.tokens ++ rest) := by
  -- Arguments do not begin with the parenthesis that closes an empty call.
  have not_empty : ∀ closing behind, arguments.tokens ++ rest = ⟨.closeParen, closing⟩ :: behind →
      False := fun _ _ => arguments.tokens_ne_cons (by simp) rfl
  cases name with
  | plainName name place =>
    refine ⟨place, rfl, ?_⟩
    simp only [Derivation.tokens, List.cons_append, List.nil_append]
    rw [ofTokens]
    · rfl
    · exact not_empty
  | prefixedName qualifier name first colon last =>
    refine ⟨first, rfl, ?_⟩
    simp only [Derivation.tokens, List.cons_append, List.nil_append]
    rw [ofTokens]
    · rfl
    · exact not_empty

/-! ## The openings that are read -/

/-- What has been read of some tokens if a step with an opening starts there and the tokens `rest`
are left: a head that is a derived step with all predicates that may follow, the parenthesis of a
group, or a name with the parenthesis of its arguments. -/
def Begins (tokens rest : List Token) : Opening → Prop
  | .head front => ∀ (conditions : Derivation .predicates) (after : List Token),
    conditions.tokens ++ after = rest → ∃ step : Derivation (.level .step),
      step.tokens ++ after = tokens ∧ step.value = front.withPredicates conditions.value
  | .group paren => ⟨.openParen, paren⟩ :: rest = tokens
  | .call place qualifier function => ∃ (name : Derivation .qualifiedName) (paren : Span),
    name.tokens ++ ⟨.openParen, paren⟩ :: rest = tokens ∧ name.value.qualifier = qualifier ∧
      name.value.name = function ∧ name.value.span.start = place.start

/-- A derived primary expression is a head. -/
theorem begins_primary (base : Derivation .primary) (rest : List Token) :
    Begins (base.tokens ++ rest) rest (.head (.primary base.value)) := by
  rintro conditions after rfl
  refine ⟨.filterStep (.filtered base conditions), by simp [Derivation.tokens], ?_⟩
  simp only [Derivation.value, Head.withPredicates, Head.spanWith_eq, Head.span]

/-- A derived node test is a head, alone and with an axis in front of it. -/
theorem begins_tested {tested rest : List Token} {test : NodeTest}
    (h : NodeTest.ofTokens tested = .ok (test, rest)) :
    Begins tested rest (.head (.step test.span.start .unwritten test)) ∧
      (∀ sign : Span, Begins (⟨.atSign, sign⟩ :: tested) rest
        (.head (.step sign.start .attribute test))) ∧
      ∀ (axis : Text) (name mark : Span), Begins (⟨.name axis, name⟩ :: ⟨.axisMark, mark⟩ :: tested)
        rest (.head (.step name.start (.named axis) test)) := by
  obtain ⟨derivation, rfl, rfl⟩ := NodeTest.exists_of_ofTokens h
  refine ⟨?_, fun sign => ?_, fun axis name mark => ?_⟩ <;> rintro conditions after rfl
  · refine ⟨.axisStep (.testStep derivation conditions), by simp [Derivation.tokens], ?_⟩
    simp only [Derivation.value, Head.withPredicates, Head.spanWith_eq, Head.span]
  · refine ⟨.axisStep (.attributeStep sign derivation conditions), by simp [Derivation.tokens], ?_⟩
    simp only [Derivation.value, Head.withPredicates, Head.spanWith_eq, Head.span]
  · refine ⟨.axisStep (.namedAxisStep axis name mark derivation conditions),
      by simp [Derivation.tokens], ?_⟩
    simp only [Derivation.value, Head.withPredicates, Head.spanWith_eq, Head.span]

/-- A reference that is read is derived. -/
theorem begins_reference {dollar : Span} {tokens rest : List Token} {node : Node}
    (h : variableOfTokens dollar tokens = .ok (node, rest)) :
    Begins (⟨.dollar, dollar⟩ :: tokens) rest (.head (.primary node)) := by
  unfold variableOfTokens at h
  split at h
  · rename_i qualifier first colon tail
    split at h
    · rename_i name last behind
      obtain ⟨rfl, rfl⟩ := Prod.mk.inj (Except.ok.inj h)
      exact begins_primary (.reference dollar (.prefixedName qualifier name first colon last)) _
    · simp at h
  · rename_i name last behind _
    obtain ⟨rfl, rfl⟩ := Prod.mk.inj (Except.ok.inj h)
    exact begins_primary (.reference dollar (.plainName name last)) _
  · simp at h

/-- One or two dots are heads. -/
theorem begins_dots (place : Span) (rest : List Token) :
    Begins (⟨.dot, place⟩ :: rest) rest (.head (.dots place ['.'])) ∧
      Begins (⟨.dots, place⟩ :: rest) rest (.head (.dots place ['.', '.'])) := by
  constructor <;> rintro conditions after rfl
  · refine ⟨.axisStep (.selfStep place conditions), by simp [Derivation.tokens], ?_⟩
    simp only [Derivation.value, Head.withPredicates, Head.spanWith_eq, Head.span]
  · refine ⟨.axisStep (.parentStep place conditions), by simp [Derivation.tokens], ?_⟩
    simp only [Derivation.value, Head.withPredicates, Head.spanWith_eq, Head.span]

/-- Every opening that is read begins a derived step. -/
theorem begins_of_ofTokens {tokens rest : List Token} {opening : Opening}
    (h : ofTokens tokens = .ok (opening, rest)) : Begins tokens rest opening := by
  unfold ofTokens at h
  split at h
  case h_6 span tail =>
    obtain ⟨⟨reference, behind⟩, found, eq⟩ := bind_eq_ok_iff.1 h
    obtain ⟨rfl, rfl⟩ := Prod.mk.inj (Except.ok.inj eq)
    exact begins_reference found
  case h_13 span tail =>
    obtain ⟨⟨test, behind⟩, found, eq⟩ := bind_eq_ok_iff.1 h
    obtain ⟨rfl, rfl⟩ := Prod.mk.inj (Except.ok.inj eq)
    exact (begins_tested found).2.1 span
  case h_14 axis span mark tail =>
    obtain ⟨⟨test, behind⟩, found, eq⟩ := bind_eq_ok_iff.1 h
    obtain ⟨rfl, rfl⟩ := Prod.mk.inj (Except.ok.inj eq)
    exact (begins_tested found).2.2 axis span mark
  case h_15 =>
    obtain ⟨⟨test, behind⟩, found, eq⟩ := bind_eq_ok_iff.1 h
    obtain ⟨rfl, rfl⟩ := Prod.mk.inj (Except.ok.inj eq)
    exact (begins_tested found).1
  -- All other openings take their tokens at once.
  all_goals obtain ⟨rfl, rfl⟩ := Prod.mk.inj (Except.ok.inj h)
  case h_1 => exact (begins_dots _ _).1
  case h_2 => exact (begins_dots _ _).2
  case h_3 value place behind => exact begins_primary (.text value place) behind
  case h_4 value place behind => exact begins_primary (.float value place) behind
  case h_5 value place behind => exact begins_primary (.integer value place) behind
  case h_7 paren last behind => exact begins_primary (.emptySequence paren last) behind
  case h_8 => rfl
  case h_9 name place paren last behind =>
    exact begins_primary (.emptyCall (.plainName name place) paren last) behind
  case h_10 name place paren behind _ =>
    exact ⟨.plainName name place, paren, rfl, rfl, rfl, rfl⟩
  case h_11 qualifier first colon name last paren closing behind =>
    exact begins_primary (.emptyCall (.prefixedName qualifier name first colon last) paren closing)
      behind
  case h_12 qualifier first colon name last paren behind _ =>
    exact ⟨.prefixedName qualifier name first colon last, paren, rfl, rfl, rfl, rfl⟩

end Opening

end LocationPath
