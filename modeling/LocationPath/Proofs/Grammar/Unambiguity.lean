import LocationPath.Proofs.Grammar.Boundary
import Mathlib.Data.List.Induction

/-! # The grammar is unambiguous

A derivation is found again from its tokens, also where others follow them that do not make it
longer. The left recursive phrases are taken apart into a first part and the parts behind it, since
two derivations can only be compared from the left.

Main definitions: `Derivation.Unique` and `Derivation.extend` (a chain that goes on). Main result:
`Derivation.eq_of_tokens_eq`. -/

namespace LocationPath

/-- Some tokens do not make a phrase in front of them longer. A node test and a primary expression
can end with a name, which a colon makes longer. -/
def Phrase.Stops : Phrase → List Token → Prop
  | .level binding, rest => binding.Stops rest
  | .axisStep, rest | .filter, rest => Level.step.Stops rest
  | .nodeTest, rest | .qualifiedName, rest | .primary, rest =>
    ∀ token ∈ rest.head?, token.lexeme ≠ .colon
  | .predicates, rest => ∀ token ∈ rest.head?, token.lexeme ≠ .openBracket
  | .predicate, _ => True
  | .arguments, rest => (Level.chain .sequence).Stops rest

namespace Derivation

/-- No other derivation of the phrase has the same tokens, nor do both begin the same tokens. -/
def Unique {phrase : Phrase} (derivation : Derivation phrase) : Prop :=
  ∀ (other : Derivation phrase) (rest rest' : List Token),
    derivation.tokens ++ rest = other.tokens ++ rest' → phrase.Stops rest → phrase.Stops rest' →
      derivation = other ∧ rest = rest'

/-! ## Lists of parts -/

/-- What stands behind a part, further parts or what follows all of them, has a property if both
have it. -/
theorem flatMap_append_of_stops {α : Type} {tokens : α → List Token}
    {stops inner : List Token → Prop} (inner_of_stops : ∀ rest, stops rest → inner rest)
    (inner_append : ∀ part rest, inner (tokens part ++ rest)) (parts : List α) {rest : List Token}
    (h : stops rest) : inner (parts.flatMap tokens ++ rest) := by
  cases parts with
  | nil => exact inner_of_stops rest h
  | cons part parts =>
    rw [List.flatMap_cons, List.append_assoc]
    exact inner_append part _

/-- Parts behind one another are found again from their tokens if each part is, provided that no
part begins with what follows them. -/
theorem parts_unique {α : Type} (tokens : α → List Token) (stops inner : List Token → Prop)
    {parts : List α}
    (unique : ∀ part ∈ parts, ∀ other rest rest', tokens part ++ rest = tokens other ++ rest' →
      inner rest → inner rest' → part = other ∧ rest = rest')
    (inner_of_stops : ∀ rest, stops rest → inner rest)
    (inner_append : ∀ part rest, inner (tokens part ++ rest))
    (not_stops : ∀ part rest, ¬ stops (tokens part ++ rest))
    {others : List α} {rest rest' : List Token}
    (eq : parts.flatMap tokens ++ rest = others.flatMap tokens ++ rest')
    (h : stops rest) (h' : stops rest') : parts = others ∧ rest = rest' := by
  have behind : ∀ (more : List α) {rest : List Token}, stops rest →
      inner (more.flatMap tokens ++ rest) :=
    flatMap_append_of_stops inner_of_stops inner_append
  induction parts generalizing others with
  | nil =>
    cases others with
    | nil => exact ⟨rfl, eq⟩
    | cons other others =>
      rw [List.flatMap_cons, List.append_assoc] at eq
      rw [List.flatMap_nil, List.nil_append] at eq
      -- One list would end where the other one goes on.
      exact absurd (eq ▸ h) (not_stops other _)
  | cons part parts ih =>
    cases others with
    | nil =>
      rw [List.flatMap_cons, List.append_assoc] at eq
      rw [List.flatMap_nil, List.nil_append] at eq
      exact absurd (eq ▸ h') (not_stops part _)
    | cons other others =>
      rw [List.flatMap_cons, List.flatMap_cons, List.append_assoc, List.append_assoc] at eq
      obtain ⟨rfl, tails⟩ :=
        unique part (by simp) other _ _ eq (behind parts h) (behind others h')
      obtain ⟨rfl, rfl⟩ := ih (fun part mem => unique part (by simp [mem])) tails
      exact ⟨rfl, rfl⟩

/-! ## Chains -/

/-- An operator of a chain with the operand on its right. -/
structure Link (chain : Chain) where
  /-- The operator. -/
  op : Token
  /-- It is one of the chain. -/
  joins : chain.joins op.lexeme = true
  /-- What stands on its right. -/
  right : Derivation (.level chain.operand)

/-- The tokens of an operator and its right operand. -/
def Link.tokens {chain : Chain} (link : Link chain) : List Token := link.op :: link.right.tokens

/-- A chain that goes on with some operators and operands. -/
def extend {chain : Chain} (left : Derivation (.level (.chain chain))) (links : List (Link chain)) :
    Derivation (.level (.chain chain)) :=
  links.foldl (fun left link => .link left link.op link.joins link.right) left

/-- A chain that goes on has the tokens of what it goes on with at its end. -/
theorem tokens_extend {chain : Chain} (left : Derivation (.level (.chain chain)))
    (links : List (Link chain)) :
    (left.extend links).tokens = left.tokens ++ links.flatMap Link.tokens := by
  induction links generalizing left with
  | nil => simp [extend]
  | cons link links ih =>
    rw [extend, List.foldl_cons, ← extend, ih]
    simp [tokens, Link.tokens]

/-- Every chain is its first operand with operators and operands behind it. -/
theorem exists_extend {chain : Chain} : (derivation : Derivation (.level (.chain chain))) →
    ∃ first links, derivation = (operand first).extend links
  | .operand only => ⟨only, [], rfl⟩
  | .link left op joins right => by
    obtain ⟨first, links, rfl⟩ := exists_extend left
    exact ⟨first, links ++ [⟨op, joins, right⟩], by simp [extend]⟩

/-- A chain is found again from its tokens if its operands are. -/
theorem Unique.extend {chain : Chain} {first : Derivation (.level chain.operand)}
    {links : List (Link chain)} (unique : first.Unique)
    (uniques : ∀ link ∈ links, link.right.Unique) : ((operand first).extend links).Unique := by
  -- Both what follows the chain and a further operator end an operand.
  have inner : ∀ (links : List (Link chain)) {rest : List Token}, (Level.chain chain).Stops rest →
      chain.operand.Stops (links.flatMap Link.tokens ++ rest) :=
    flatMap_append_of_stops (fun _ => Level.Stops.operand)
      fun link _ => Chain.stops_operand _ _ link.joins _
  have link_unique : ∀ link ∈ links, ∀ (other : Link chain) (rest rest' : List Token),
      link.tokens ++ rest = other.tokens ++ rest' → chain.operand.Stops rest →
        chain.operand.Stops rest' → link = other ∧ rest = rest' := by
    intro link mem ⟨op, joins, right⟩ rest rest' eq h h'
    simp only [Link.tokens, List.cons_append, List.cons.injEq] at eq
    obtain ⟨rfl, eq⟩ := eq
    obtain ⟨rfl, rfl⟩ := uniques link mem right _ _ eq h h'
    exact ⟨rfl, rfl⟩
  have not_stops : ∀ (link : Link chain) (rest : List Token),
      ¬ (Level.chain chain).Stops (link.tokens ++ rest) := by
    intro link rest h
    have := Level.Stops.not_joins h
    rw [link.joins] at this
    contradiction
  intro other rest rest' eq h h'
  obtain ⟨first', links', rfl⟩ := exists_extend other
  simp only [tokens_extend, tokens, List.append_assoc] at eq
  obtain ⟨rfl, behind⟩ := unique first' _ _ eq (inner links h) (inner links' h')
  obtain ⟨rfl, rfl⟩ := parts_unique Link.tokens (Level.chain chain).Stops
    chain.operand.Stops link_unique (fun _ => Level.Stops.operand)
    (fun link _ => Chain.stops_operand _ _ link.joins _) not_stops behind h h'
  exact ⟨rfl, rfl⟩

/-! ## Predicates and arguments -/

/-- Predicates behind one another. -/
def ofPredicates (parts : List (Derivation .predicate)) : Derivation .predicates :=
  parts.foldl .morePredicates .noPredicate

/-- Predicates have the tokens of each in turn. -/
theorem tokens_ofPredicates (parts : List (Derivation .predicate)) :
    (ofPredicates parts).tokens = parts.flatMap tokens := by
  induction parts using List.reverseRecOn with
  | nil => rfl
  | append_singleton parts last ih =>
    rw [ofPredicates, List.foldl_append, ← ofPredicates, List.flatMap_append, ← ih]
    simp [tokens]

/-- All predicates are single ones behind one another. -/
theorem exists_ofPredicates : (derivation : Derivation .predicates) →
    ∃ parts, derivation = ofPredicates parts
  | .noPredicate => ⟨[], rfl⟩
  | .morePredicates earlier last => by
    obtain ⟨parts, rfl⟩ := exists_ofPredicates earlier
    exact ⟨parts ++ [last], by simp [ofPredicates]⟩

/-- Predicates are found again from their tokens if each of them is. -/
theorem Unique.ofPredicates {parts : List (Derivation .predicate)}
    (uniques : ∀ part ∈ parts, part.Unique) : (ofPredicates parts).Unique := by
  have not_stops : ∀ (part : Derivation .predicate) (rest : List Token),
      ¬ Phrase.predicates.Stops (part.tokens ++ rest) := by
    intro part rest h
    obtain ⟨span, tail, eq⟩ := part.exists_opening
    exact h ⟨.openBracket, span⟩ (by rw [eq]; rfl) rfl
  intro other rest rest' eq h h'
  obtain ⟨others, rfl⟩ := exists_ofPredicates other
  rw [tokens_ofPredicates, tokens_ofPredicates] at eq
  obtain ⟨rfl, rfl⟩ := parts_unique tokens Phrase.predicates.Stops
    (fun _ => True) (fun part mem other rest rest' eq _ _ =>
      uniques part mem other rest rest' eq trivial trivial)
    (fun _ _ => trivial) (fun _ _ => trivial) not_stops eq h h'
  exact ⟨rfl, rfl⟩

/-- A further argument with the comma in front of it. -/
structure NextArgument where
  /-- The place of the comma. -/
  comma : Span
  /-- The argument. -/
  value : Derivation (.level (.chain .disjunction))

/-- The tokens of a comma and an argument. -/
def NextArgument.tokens (next : NextArgument) : List Token :=
  ⟨.comma, next.comma⟩ :: next.value.tokens

/-- Arguments behind one another. -/
def ofArguments (first : Derivation (.level (.chain .disjunction))) (more : List NextArgument) :
    Derivation .arguments :=
  more.foldl (fun earlier next => .moreArguments earlier next.comma next.value) (.argument first)

/-- Arguments have the tokens of each in turn. -/
theorem tokens_ofArguments (first : Derivation (.level (.chain .disjunction)))
    (more : List NextArgument) :
    (ofArguments first more).tokens = first.tokens ++ more.flatMap NextArgument.tokens := by
  induction more using List.reverseRecOn with
  | nil => simp [ofArguments, tokens]
  | append_singleton more last ih =>
    rw [ofArguments, List.foldl_append, ← ofArguments, List.flatMap_append, ← List.append_assoc,
      ← ih]
    simp [tokens, NextArgument.tokens]

/-- All arguments are a first one and others behind commas. -/
theorem exists_ofArguments : (derivation : Derivation .arguments) →
    ∃ first more, derivation = ofArguments first more
  | .argument only => ⟨only, [], rfl⟩
  | .moreArguments earlier comma last => by
    obtain ⟨first, more, rfl⟩ := exists_ofArguments earlier
    exact ⟨first, more ++ [⟨comma, last⟩], by simp [ofArguments]⟩

/-- Arguments are found again from their tokens if each of them is. -/
theorem Unique.ofArguments {first : Derivation (.level (.chain .disjunction))}
    {more : List NextArgument} (unique : first.Unique)
    (uniques : ∀ next ∈ more, next.value.Unique) : (ofArguments first more).Unique := by
  have operand_stops : ∀ (next : NextArgument) (rest : List Token),
      (Level.chain .disjunction).Stops (next.tokens ++ rest) := fun next rest =>
    Chain.stops_operand .sequence ⟨.comma, next.comma⟩ rfl _
  -- Both what follows the arguments and a further comma end an argument.
  have inner : ∀ (more : List NextArgument) {rest : List Token},
      (Level.chain .sequence).Stops rest →
      (Level.chain .disjunction).Stops (more.flatMap NextArgument.tokens ++ rest) :=
    flatMap_append_of_stops (fun _ h => h.of_height_le (by decide)) operand_stops
  have next_unique : ∀ next ∈ more, ∀ (other : NextArgument) (rest rest' : List Token),
      next.tokens ++ rest = other.tokens ++ rest' → (Level.chain .disjunction).Stops rest →
        (Level.chain .disjunction).Stops rest' → next = other ∧ rest = rest' := by
    intro next mem ⟨comma, value⟩ rest rest' eq h h'
    simp only [NextArgument.tokens, List.cons_append, List.cons.injEq, Token.mk.injEq,
      true_and] at eq
    obtain ⟨rfl, eq⟩ := eq
    obtain ⟨rfl, rfl⟩ := uniques next mem value _ _ eq h h'
    exact ⟨rfl, rfl⟩
  have not_stops : ∀ (next : NextArgument) (rest : List Token),
      ¬ (Level.chain .sequence).Stops (next.tokens ++ rest) := by
    intro next rest h
    have := Level.Stops.not_joins h
    simp [Chain.joins] at this
  intro other rest rest' eq h h'
  obtain ⟨first', more', rfl⟩ := exists_ofArguments other
  simp only [tokens_ofArguments, List.append_assoc] at eq
  obtain ⟨rfl, behind⟩ := unique first' _ _ eq (inner more h) (inner more' h')
  obtain ⟨rfl, rfl⟩ := parts_unique NextArgument.tokens
    (Level.chain .sequence).Stops (Level.chain .disjunction).Stops
    next_unique (fun _ h => h.of_height_le (by decide)) operand_stops not_stops behind h h'
  exact ⟨rfl, rfl⟩

/-! ## Names and node tests -/

/-- A name is found again from its tokens. -/
theorem unique_qualifiedName (name : Derivation .qualifiedName) : name.Unique := by
  intro other rest rest' eq h h'
  cases name with
  | plainName name span =>
    cases other with
    | plainName => simpa [tokens, and_assoc] using eq
    | prefixedName qualifier label first colon last =>
      simp only [tokens, List.cons_append, List.nil_append, List.cons.injEq] at eq
      -- A plain name must not be followed by a colon.
      exact absurd rfl (h ⟨.colon, colon⟩ (by rw [eq.2]; rfl))
  | prefixedName qualifier label first colon last =>
    cases other with
    | plainName name span =>
      simp only [tokens, List.cons_append, List.nil_append, List.cons.injEq] at eq
      exact absurd rfl (h' ⟨.colon, colon⟩ (by rw [← eq.2]; rfl))
    | prefixedName =>
      simp only [tokens, List.cons_append, List.nil_append, List.cons.injEq, Token.mk.injEq,
        Lexeme.name.injEq, true_and] at eq
      obtain ⟨⟨rfl, rfl⟩, rfl, ⟨rfl, rfl⟩, rfl⟩ := eq
      exact ⟨rfl, rfl⟩

/-- A name does not begin with a qualified star. -/
theorem name_ne_anyQualifiedTest {name : Derivation .qualifiedName} {qualifier : Text}
    {first colon star : Span} {rest rest' : List Token} (h : Phrase.qualifiedName.Stops rest) :
    name.tokens ++ rest ≠ (anyQualifiedTest qualifier first colon star).tokens ++ rest' := by
  intro eq
  cases name with
  | plainName =>
    simp only [tokens, List.cons_append, List.nil_append, List.cons.injEq] at eq
    exact h ⟨.colon, colon⟩ (by rw [eq.2]; rfl) rfl
  | prefixedName => simp [tokens] at eq

/-- A node test is found again from its tokens. -/
theorem unique_nodeTest (test : Derivation .nodeTest) : test.Unique := by
  intro other rest rest' eq h h'
  cases test with
  | nameTest name =>
    cases other with
    | nameTest other =>
      obtain ⟨rfl, rfl⟩ := unique_qualifiedName name other rest rest' eq h h'
      exact ⟨rfl, rfl⟩
    | anyQualifiedTest qualifier first colon star =>
      exact absurd eq (name_ne_anyQualifiedTest h)
    | _ => cases name <;> simp [tokens] at eq
  | anyQualifiedTest =>
    cases other with
    | nameTest other => exact absurd eq.symm (name_ne_anyQualifiedTest h')
    | _ => simp_all [tokens]
  | anyTest | typeTest | typeTestFor =>
    cases other with
    | nameTest other => cases other <;> simp_all [tokens]
    | _ => simp_all [tokens]

/-- Behind the head of a step stands an opening bracket or what does not make a step longer. -/
theorem first_behind_head {conditions : Derivation .predicates} {rest : List Token}
    (h : Level.step.Stops rest) : ∀ token ∈ (conditions.tokens ++ rest).head?,
      token.lexeme = .openBracket ∨ Level.step.extends token.lexeme = false := by
  intro token mem
  obtain eq | ⟨span, tail, eq⟩ := conditions.predicates_first
  · rw [eq, List.nil_append] at mem
    exact .inr (h token mem)
  · rw [eq] at mem
    obtain rfl := Option.mem_some.1 mem
    exact .inl rfl

/-- A lexeme that would make the head of a step longer does not stand behind it. -/
theorem lexeme_ne_behind_head (conditions : Derivation .predicates) {rest : List Token}
    (h : Level.step.Stops rest) (lexeme : Lexeme) (extends_head : Level.step.extends lexeme = true)
    (ne : lexeme ≠ .openBracket) :
    ∀ token ∈ (conditions.tokens ++ rest).head?, token.lexeme ≠ lexeme := by
  rintro token mem rfl
  obtain eq | eq := first_behind_head h token mem
  · exact ne eq
  · rw [extends_head] at eq
    contradiction

/-- What does not make a step longer is no opening bracket. -/
theorem stops_predicates {rest : List Token} (h : Level.step.Stops rest) :
    Phrase.predicates.Stops rest := by
  intro token mem eq
  have := h token mem
  simp [eq, Level.extends] at this

/-! ## Steps -/

/-- A step with a node test and a call of a function do not begin the same tokens. -/
theorem nodeTest_ne_call {test : Derivation .nodeTest} {name : Derivation .qualifiedName}
    {conditions : Derivation .predicates} {rest rest' : List Token} {paren : Span}
    (h : Level.step.Stops rest) : test.tokens ++ (conditions.tokens ++ rest) ≠
      name.tokens ++ ⟨.openParen, paren⟩ :: rest' := by
  intro eq
  cases test with
  | nameTest tested =>
    have stops := lexeme_ne_behind_head conditions h .colon rfl
      (by simp)
    have behind := (unique_qualifiedName tested name _ _ eq stops (by simp [Phrase.Stops])).2
    exact lexeme_ne_behind_head conditions h .openParen rfl (by simp)
      ⟨.openParen, paren⟩ (by rw [behind]; rfl) rfl
  | _ => cases name <;> simp_all [tokens]

/-- A step with an axis or dots and a filter expression do not begin the same tokens. -/
theorem axisStep_ne_filter {step : Derivation .axisStep} {filter : Derivation .filter}
    {rest rest' : List Token} (h : Level.step.Stops rest) :
    step.tokens ++ rest ≠ filter.tokens ++ rest' := by
  intro eq
  cases filter with
  | filtered base conditions =>
    cases base with
    | emptyCall name | call name =>
      cases step with
      | testStep test => exact nodeTest_ne_call h (by simpa [tokens] using eq)
      | _ => cases name <;> simp [tokens] at eq
    | _ =>
      cases step with
      | testStep test =>
        cases test with
        | nameTest name => cases name <;> simp [tokens] at eq
        | _ => simp [tokens] at eq
      | _ => simp [tokens] at eq

/-- A node test does not begin with the name of an axis. -/
theorem nodeTest_ne_axis {test : Derivation .nodeTest} {conditions : Derivation .predicates}
    {rest rest' : List Token} {axis : Text} {name mark : Span} (h : Level.step.Stops rest) :
    test.tokens ++ (conditions.tokens ++ rest) ≠
      ⟨.name axis, name⟩ :: ⟨.axisMark, mark⟩ :: rest' := by
  intro eq
  cases test with
  | nameTest tested =>
    cases tested with
    | plainName =>
      simp only [tokens, List.cons_append, List.nil_append, List.cons.injEq] at eq
      exact lexeme_ne_behind_head conditions h .axisMark rfl (by simp)
        ⟨.axisMark, mark⟩ (by rw [eq.2]; rfl) rfl
    | prefixedName => simp [tokens] at eq
  | _ => simp [tokens] at eq

/-- A node test and the predicates behind it are found again from their tokens. -/
theorem unique_tested {test test' : Derivation .nodeTest}
    {conditions conditions' : Derivation .predicates} (unique : conditions.Unique)
    {rest rest' : List Token}
    (eq : test.tokens ++ (conditions.tokens ++ rest) = test'.tokens ++ (conditions'.tokens ++ rest'))
    (h : Level.step.Stops rest) (h' : Level.step.Stops rest') :
    test = test' ∧ conditions = conditions' ∧ rest = rest' := by
  obtain ⟨rfl, behind⟩ := unique_nodeTest test test' _ _ eq
    (lexeme_ne_behind_head _ h _ rfl (by simp)) (lexeme_ne_behind_head _ h' _ rfl (by simp))
  obtain ⟨rfl, rfl⟩ := unique conditions' _ _ behind (stops_predicates h) (stops_predicates h')
  exact ⟨rfl, rfl, rfl⟩

/-! ## Parts behind a token and between tokens -/

/-- A part behind a token is found again together with the place of the token. -/
theorem Unique.behind {part : Phrase} {inner other : Derivation part} (unique : inner.Unique)
    {lexeme : Lexeme} {first first' : Span} {rest rest' : List Token}
    (eq : ⟨lexeme, first⟩ :: inner.tokens ++ rest = ⟨lexeme, first'⟩ :: other.tokens ++ rest')
    (h : part.Stops rest) (h' : part.Stops rest') :
    first = first' ∧ inner = other ∧ rest = rest' := by
  simp only [List.cons_append, List.cons.injEq, Token.mk.injEq, true_and] at eq
  exact ⟨eq.1, unique other rest rest' eq.2 h h'⟩

/-- A part between two tokens is found again together with their places, if the closing one does not
make it longer. -/
theorem Unique.between {part : Phrase} {inner other : Derivation part} (unique : inner.Unique)
    {opening closing : Lexeme} {first first' last last' : Span} {rest rest' : List Token}
    (stops : ∀ span behind, part.Stops (⟨closing, span⟩ :: behind))
    (eq : ⟨opening, first⟩ :: (inner.tokens ++ [⟨closing, last⟩]) ++ rest =
      ⟨opening, first'⟩ :: (other.tokens ++ [⟨closing, last'⟩]) ++ rest') :
    first = first' ∧ inner = other ∧ last = last' ∧ rest = rest' := by
  simp only [List.cons_append, List.append_assoc, List.nil_append] at eq
  obtain ⟨rfl, rfl, behind⟩ := unique.behind eq (stops _ _) (stops _ _)
  simp only [List.cons.injEq, Token.mk.injEq, true_and] at behind
  exact ⟨rfl, rfl, behind⟩

/-! ## Steps on an axis -/

/-- The predicates of a step with a node test or with dots. -/
def conditions : Derivation .axisStep → Derivation .predicates
  | .testStep _ conditions | .attributeStep _ _ conditions | .namedAxisStep _ _ _ _ conditions
  | .selfStep _ conditions | .parentStep _ conditions => conditions

/-- A step without an axis begins as its node test. -/
theorem testStep_ne_cons {test : Derivation .nodeTest} {conditions : Derivation .predicates}
    {token : Token} {rest rest' : List Token} (closed : Phrase.nodeTest.opens token.lexeme = false) :
    (testStep test conditions).tokens ++ rest ≠ token :: rest' := by
  rw [tokens, List.append_assoc]
  exact test.tokens_ne_cons (by simp) closed

/-- A step is found again from its tokens if its predicates are. The first token tells the kind of
the step, but for a node test and an axis: both begin with a name, and the mark behind it decides. -/
theorem unique_axisStep {step : Derivation .axisStep} (unique : step.conditions.Unique) :
    step.Unique := by
  intro other rest rest' eq h h'
  cases step with
  | testStep test conditions =>
    cases other with
    | testStep test' conditions' =>
      obtain ⟨rfl, rfl, rfl⟩ := unique_tested (show conditions.Unique from unique)
        (by simpa [tokens] using eq) h h'
      exact ⟨rfl, rfl⟩
    -- Both may begin with a name, but only behind that of an axis stands the double colon.
    | namedAxisStep =>
      rw [tokens, List.append_assoc] at eq
      exact absurd eq (nodeTest_ne_axis h)
    | _ => exact absurd eq (testStep_ne_cons rfl)
  | attributeStep sign test conditions =>
    cases other with
    | attributeStep sign' test' conditions' =>
      simp only [tokens, List.cons_append, List.append_assoc, List.cons.injEq, Token.mk.injEq,
        true_and] at eq
      obtain ⟨rfl, rfl, rfl⟩ := unique_tested (show conditions.Unique from unique) eq.2 h h'
      exact ⟨by rw [eq.1], rfl⟩
    | testStep => exact absurd eq.symm (testStep_ne_cons rfl)
    | _ => simp [tokens] at eq
  | namedAxisStep axis name mark test conditions =>
    cases other with
    | namedAxisStep axis' name' mark' test' conditions' =>
      simp only [tokens, List.cons_append, List.append_assoc, List.cons.injEq, Token.mk.injEq,
        Lexeme.name.injEq, true_and] at eq
      obtain ⟨rfl, rfl, rfl⟩ := unique_tested (show conditions.Unique from unique) eq.2.2 h h'
      exact ⟨by rw [eq.1.1, eq.1.2, eq.2.1], rfl⟩
    | testStep =>
      rw [tokens, tokens, List.append_assoc] at eq
      exact absurd eq.symm (nodeTest_ne_axis h')
    | _ => simp [tokens] at eq
  | selfStep dot conditions =>
    cases other with
    | selfStep dot' conditions' =>
      obtain ⟨rfl, rfl, rfl⟩ := unique.behind eq (stops_predicates h) (stops_predicates h')
      exact ⟨rfl, rfl⟩
    | testStep => exact absurd eq.symm (testStep_ne_cons rfl)
    | _ => simp [tokens] at eq
  | parentStep dots conditions =>
    cases other with
    | parentStep dots' conditions' =>
      obtain ⟨rfl, rfl, rfl⟩ := unique.behind eq (stops_predicates h) (stops_predicates h')
      exact ⟨rfl, rfl⟩
    | testStep => exact absurd eq.symm (testStep_ne_cons rfl)
    | _ => simp [tokens] at eq

/-! ## Primary expressions -/

/-- A name in front of a parenthesis is found again from its tokens. -/
theorem unique_called {name name' : Derivation .qualifiedName} {opening opening' : Span}
    {rest rest' : List Token} (eq : name.tokens ++ ⟨.openParen, opening⟩ :: rest =
      name'.tokens ++ ⟨.openParen, opening'⟩ :: rest') :
    name = name' ∧ (⟨.openParen, opening⟩ : Token) :: rest = ⟨.openParen, opening'⟩ :: rest' :=
  unique_qualifiedName name name' _ _ eq (by simp [Phrase.Stops]) (by simp [Phrase.Stops])

/-- A group and an empty sequence do not begin the same tokens: no expression begins with a closing
parenthesis. -/
theorem group_ne_emptySequence {opening opening' closing closing' : Span}
    {inner : Derivation .expression} {rest rest' : List Token} :
    (group opening inner closing).tokens ++ rest ≠
      (emptySequence opening' closing').tokens ++ rest' := by
  intro eq
  simp only [tokens, List.cons_append, List.append_assoc, List.cons.injEq] at eq
  exact inner.tokens_ne_cons (by simp) rfl eq.2

/-- A call with arguments and one without do not begin the same tokens: no argument begins with a
closing parenthesis. -/
theorem call_ne_emptyCall {name name' : Derivation .qualifiedName}
    {opening opening' closing closing' : Span} {arguments : Derivation .arguments}
    {rest rest' : List Token} : (call name opening arguments closing).tokens ++ rest ≠
      (emptyCall name' opening' closing').tokens ++ rest' := by
  intro eq
  simp only [tokens, List.append_assoc, List.cons_append, List.nil_append] at eq
  have behind := (unique_called eq).2
  exact arguments.tokens_ne_cons (by simp) rfl (List.cons.inj behind).2

/-- A group is found again from its tokens if the expression in it is. -/
theorem Unique.group {opening closing : Span} {inner : Derivation .expression}
    (unique : inner.Unique) : (group opening inner closing).Unique := by
  intro other rest rest' eq h h'
  cases other with
  | group opening' inner' closing' =>
    obtain ⟨rfl, rfl, rfl, rfl⟩ := unique.between (by simp [Phrase.Stops]) eq
    exact ⟨rfl, rfl⟩
  | emptySequence => exact absurd eq group_ne_emptySequence
  | emptyCall name' | call name' => cases name' <;> simp [tokens] at eq
  | _ => simp [tokens] at eq

/-- A call is found again from its tokens if its arguments are. -/
theorem Unique.call {name : Derivation .qualifiedName} {opening closing : Span}
    {arguments : Derivation .arguments} (unique : arguments.Unique) :
    (call name opening arguments closing).Unique := by
  intro other rest rest' eq h h'
  cases other with
  | emptyCall => exact absurd eq call_ne_emptyCall
  | call name' opening' arguments' closing' =>
    rw [tokens, tokens, List.append_assoc, List.append_assoc] at eq
    obtain ⟨rfl, behind⟩ := unique_called eq
    obtain ⟨rfl, rfl, rfl, rfl⟩ := unique.between (by simp [Phrase.Stops]) behind
    exact ⟨rfl, rfl⟩
  | _ => cases name <;> simp [tokens] at eq

/-! ## Paths -/

/-- The steps of a path, unless it is the root alone. -/
def steps? : Derivation (.level .path) → Option (Derivation (.level (.chain .steps)))
  | .root _ => none
  | .relative steps | .absolute _ steps | .anywhere _ steps => some steps

/-- Steps between slashes make the root alone longer. -/
theorem not_stops_steps {steps : Derivation (.level (.chain .steps))} {rest : List Token} :
    ¬ Level.path.Stops (steps.tokens ++ rest) := by
  intro stops
  obtain ⟨token, tail, eq, opens⟩ := steps.exists_first
  rw [eq, List.cons_append, Level.stops_cons] at stops
  rw [Level.opens_steps, Level.startsStep_of_extends stops] at opens
  contradiction

/-- A path is found again from its tokens if its steps are. No step begins with a slash, and the root
alone is told from a longer path by what stands behind it. -/
theorem unique_path {path : Derivation (.level .path)}
    (unique : ∀ steps ∈ path.steps?, steps.Unique) : path.Unique := by
  intro other rest rest' eq h h'
  have stops : (Level.chain .steps).Stops rest := h.of_height_le (by decide)
  have stops' : (Level.chain .steps).Stops rest' := h'.of_height_le (by decide)
  cases path with
  | relative steps =>
    cases other with
    | relative steps' =>
      obtain ⟨rfl, rfl⟩ := unique steps rfl steps' rest rest' eq stops stops'
      exact ⟨rfl, rfl⟩
    | root | absolute | anywhere =>
      exact absurd eq (steps.tokens_ne_cons (by simp) rfl)
  | root slash =>
    cases other with
    | relative steps' =>
      exact absurd eq.symm (steps'.tokens_ne_cons (by simp) rfl)
    | root => simpa [tokens] using eq
    -- A slash in front of a step is not the root alone.
    | absolute slash' steps' =>
      simp only [tokens, List.cons_append, List.nil_append, List.cons.injEq] at eq
      exact absurd (eq.2 ▸ h) not_stops_steps
    | anywhere => simp [tokens] at eq
  | absolute slash steps =>
    cases other with
    | relative steps' =>
      exact absurd eq.symm (steps'.tokens_ne_cons (by simp) rfl)
    | root =>
      simp only [tokens, List.cons_append, List.nil_append, List.cons.injEq] at eq
      exact absurd (eq.2 ▸ h') not_stops_steps
    | absolute slash' steps' =>
      obtain ⟨rfl, rfl, rfl⟩ := (unique steps rfl).behind eq stops stops'
      exact ⟨rfl, rfl⟩
    | anywhere => simp [tokens] at eq
  | anywhere slashes steps =>
    cases other with
    | relative steps' =>
      exact absurd eq.symm (steps'.tokens_ne_cons (by simp) rfl)
    | anywhere slashes' steps' =>
      obtain ⟨rfl, rfl, rfl⟩ := (unique steps rfl).behind eq stops stops'
      exact ⟨rfl, rfl⟩
    | _ => simp [tokens] at eq

/-! ## All phrases -/

/-- What the induction below shows of a derivation. Of the left recursive phrases it shows that
their parts are found again, since that is what a longer phrase needs of a shorter one. -/
def Settled : {phrase : Phrase} → Derivation phrase → Prop
  | .level (.chain _), derivation => ∃ first links, derivation = (operand first).extend links ∧
    first.Unique ∧ ∀ link ∈ links, link.right.Unique
  | .predicates, derivation => ∃ parts, derivation = ofPredicates parts ∧
    ∀ part ∈ parts, part.Unique
  | .arguments, derivation => ∃ first more, derivation = ofArguments first more ∧
    first.Unique ∧ ∀ next ∈ more, next.value.Unique
  | .level .negation, derivation | .level .path, derivation | .level .step, derivation
  | .axisStep, derivation | .filter, derivation | .nodeTest, derivation
  | .qualifiedName, derivation | .predicate, derivation | .primary, derivation =>
    derivation.Unique

/-- What the induction shows is enough. -/
theorem Settled.unique {phrase : Phrase} {derivation : Derivation phrase}
    (h : derivation.Settled) : derivation.Unique := by
  cases phrase with
  | level level =>
    cases level with
    | chain chain =>
      obtain ⟨first, links, rfl, unique, uniques⟩ := h
      exact unique.extend uniques
    | _ => exact h
  | predicates =>
    obtain ⟨parts, rfl, uniques⟩ := h
    exact .ofPredicates uniques
  | arguments =>
    obtain ⟨first, more, rfl, unique, uniques⟩ := h
    exact unique.ofArguments uniques
  | _ => exact h

/-- Every derivation is found again from its tokens. -/
theorem settled {phrase : Phrase} (derivation : Derivation phrase) : derivation.Settled := by
  -- One more part at the end of a left recursive phrase is one more in the list of its parts.
  -- `Derivation.Unique` itself would not do: the phrase without its last part is not followed by
  -- what stops it.
  induction derivation with
  | operand only ih => exact ⟨only, [], rfl, ih.unique, by simp⟩
  | link left op joins right ihl ihr =>
    obtain ⟨first, links, rfl, unique, uniques⟩ := ihl
    exact ⟨first, links ++ [⟨op, joins, right⟩], by simp [extend], unique,
      List.forall_mem_append.2 ⟨uniques, List.forall_mem_singleton.2 ihr.unique⟩⟩
  | negated minus negative ih =>
    intro other rest rest' eq h h'
    cases other with
    | negated minus' negative' =>
      obtain ⟨rfl, rfl, rfl⟩ := ih.unique.behind eq h h'
      exact ⟨rfl, rfl⟩
    | unnegated union =>
      exact absurd eq.symm (union.tokens_ne_cons (by simp) rfl)
  | unnegated union ih =>
    intro other rest rest' eq h h'
    cases other with
    | negated => exact absurd eq (union.tokens_ne_cons (by simp) rfl)
    | unnegated union' =>
      obtain ⟨rfl, rfl⟩ := ih.unique union' rest rest' eq (h.of_height_le (by decide))
        (h'.of_height_le (by decide))
      exact ⟨rfl, rfl⟩
  | root => exact unique_path (by simp [steps?])
  | relative steps ih | absolute _ steps ih | anywhere _ steps ih =>
    exact unique_path fun other mem => Option.some.inj mem ▸ ih.unique
  | axisStep step ih =>
    intro other rest rest' eq h h'
    cases other with
    | axisStep other =>
      obtain ⟨rfl, rfl⟩ := ih.unique other rest rest' eq h h'
      exact ⟨rfl, rfl⟩
    | filterStep other => exact absurd eq (axisStep_ne_filter h)
  | filterStep step ih =>
    intro other rest rest' eq h h'
    cases other with
    | axisStep other => exact absurd eq.symm (axisStep_ne_filter h')
    | filterStep other =>
      obtain ⟨rfl, rfl⟩ := ih.unique other rest rest' eq h h'
      exact ⟨rfl, rfl⟩
  | testStep _ _ _ ih | attributeStep _ _ _ _ ih | namedAxisStep _ _ _ _ _ _ ih
  | selfStep _ _ ih | parentStep _ _ ih => exact unique_axisStep ih.unique
  | nameTest | anyTest | anyQualifiedTest | typeTest | typeTestFor => exact unique_nodeTest _
  | plainName | prefixedName => exact unique_qualifiedName _
  | noPredicate => exact ⟨[], rfl, by simp⟩
  | morePredicates earlier last ihe ihl =>
    obtain ⟨parts, rfl, uniques⟩ := ihe
    exact ⟨parts ++ [last], by simp [ofPredicates],
      List.forall_mem_append.2 ⟨uniques, List.forall_mem_singleton.2 ihl.unique⟩⟩
  | predicate opening condition closing ih =>
    intro other rest rest' eq h h'
    cases other with
    | predicate opening' condition' closing' =>
      obtain ⟨rfl, rfl, rfl, rfl⟩ := ih.unique.between (by simp [Phrase.Stops]) eq
      exact ⟨rfl, rfl⟩
  | filtered base conditions ihb ihc =>
    intro other rest rest' eq h h'
    cases other with
    | filtered base' conditions' =>
      simp only [tokens, List.append_assoc] at eq
      -- A colon or a bracket behind the primary expression would be a part of it.
      obtain ⟨rfl, behind⟩ := ihb.unique base' _ _ eq
        (lexeme_ne_behind_head _ h _ rfl (by simp)) (lexeme_ne_behind_head _ h' _ rfl (by simp))
      obtain ⟨rfl, rfl⟩ := ihc.unique conditions' _ _ behind (stops_predicates h)
        (stops_predicates h')
      exact ⟨rfl, rfl⟩
  | reference dollar name =>
    intro other rest rest' eq h h'
    cases other with
    | reference dollar' name' =>
      obtain ⟨rfl, rfl, rfl⟩ := (unique_qualifiedName name).behind eq h h'
      exact ⟨rfl, rfl⟩
    | emptyCall name' | call name' => cases name' <;> simp [tokens] at eq
    | _ => simp [tokens] at eq
  | group _ _ _ ih => exact ih.unique.group
  | emptySequence opening closing =>
    intro other rest rest' eq h h'
    cases other with
    | group => exact absurd eq.symm group_ne_emptySequence
    | emptySequence => simpa [tokens, and_assoc] using eq
    | emptyCall name' | call name' => cases name' <;> simp [tokens] at eq
    | _ => simp [tokens] at eq
  | text | float | integer =>
    intro other rest rest' eq h h'
    cases other with
    | emptyCall name' | call name' => cases name' <;> simp [tokens] at eq
    | _ => simp_all [tokens]
  | emptyCall name opening closing =>
    intro other rest rest' eq h h'
    cases other with
    | emptyCall name' opening' closing' =>
      simp only [tokens, List.append_assoc] at eq
      obtain ⟨rfl, behind⟩ := unique_called eq
      simp_all
    | call => exact absurd eq.symm call_ne_emptyCall
    | _ => cases name <;> simp [tokens] at eq
  | call _ _ _ _ _ ih => exact ih.unique.call
  | argument only ih => exact ⟨only, [], rfl, ih.unique, by simp⟩
  | moreArguments earlier comma last ihe ihl =>
    obtain ⟨first, more, rfl, unique, uniques⟩ := ihe
    exact ⟨first, more ++ [⟨comma, last⟩], by simp [ofArguments], unique,
      List.forall_mem_append.2 ⟨uniques, List.forall_mem_singleton.2 ihl.unique⟩⟩

/-- **The grammar is unambiguous**: derivations of one phrase with the same tokens are the same. -/
theorem eq_of_tokens_eq {phrase : Phrase} {derivation other : Derivation phrase}
    (eq : derivation.tokens = other.tokens) (stops : phrase.Stops []) : derivation = other :=
  (derivation.settled.unique other [] [] (by rw [eq]) stops stops).1

end Derivation

end LocationPath
