import LocationPath.Proofs.Grammar.Closing
import LocationPath.Proofs.Printing.Spacing
import Mathlib.Data.List.Chain

/-! # Neighbours

Which lexemes stand side by side in an expression. The one fact that matters to reading them again
is that two of them can hardly be taken for one: behind what can end an operand nothing starts a
step, a slash stands behind no slash, and so on.

Main definition: `Lexeme.precedes`. Main result: `Derivation.neighbours`. -/

namespace LocationPath

namespace Lexeme

/-- Whether a lexeme may stand right behind another one, for all that the grammar says. A name is
followed by a parenthesis in a call. -/
def precedes : Lexeme → Lexeme → Bool
  | .name _, .openParen => true
  | .nodeType _, next => next = .openParen
  | .slash, next => next ∉ [.slash, .slashes]
  | .colon, next | .less, next | .greater, next => next ∉ [.colon, .axisMark, .equal]
  | lexeme, next => !(lexeme.endsStep && next.startsStep)

/-- Behind the end of a step stands what starts no step. -/
theorem precedes_of_endsStep {lexeme next : Lexeme} (ends : lexeme.endsStep = true)
    (no_start : next.startsStep = false) : lexeme.precedes next = true := by
  unfold precedes
  split
  · rfl
  · simp [endsStep] at ends
  · simp [endsStep, endsOperand] at ends
  · simp [endsStep, endsOperand] at ends
  · simp [endsStep, endsOperand] at ends
  · simp [endsStep, endsOperand] at ends
  · simp [no_start]

/-- What ends a phrase is a slash or ends a step. -/
theorem eq_slash_or_endsStep_of_closes {phrase : Phrase} {lexeme : Lexeme}
    (closes : phrase.closes lexeme = true) : lexeme = .slash ∨ lexeme.endsStep = true := by
  unfold Phrase.closes at closes
  split at closes
  · exact .inl rfl
  · exact .inl rfl
  · exact .inr rfl
  · contradiction
  · rw [of_decide_eq_true closes]
    exact .inr rfl
  · rw [of_decide_eq_true closes]
    exact .inr rfl
  · exact .inr closes

/-- Behind a phrase may stand what starts no step and is no slash. -/
theorem precedes_of_closes {phrase : Phrase} {lexeme next : Lexeme}
    (closes : phrase.closes lexeme = true) (no_start : next.startsStep = false)
    (no_slash : next ∉ [.slash, .slashes]) : lexeme.precedes next = true := by
  rcases eq_slash_or_endsStep_of_closes closes with rfl | ends
  · exact decide_eq_true no_slash
  · exact precedes_of_endsStep ends no_start

end Lexeme

/-- No operator of a chain starts a step. -/
theorem Chain.startsStep_of_joins {chain : Chain} {op : Lexeme} (joins : chain.joins op = true) :
    op.startsStep = false := by
  cases op <;> first | rfl | (cases chain <;> contradiction)

/-- Behind a chain may stand each of its operators. -/
theorem Chain.precedes_of_joins {chain : Chain} {lexeme op : Lexeme}
    (closes : (Phrase.level (.chain chain)).closes lexeme = true) (joins : chain.joins op = true) :
    lexeme.precedes op = true := by
  by_cases steps : chain = .steps
  · subst steps
    have ends : lexeme.endsStep = true := by
      rcases Phrase.eq_slash_or_endsStep closes with rfl | ends
      · contradiction
      · exact ends
    exact Lexeme.precedes_of_endsStep ends (startsStep_of_joins joins)
  · apply Lexeme.precedes_of_closes closes (startsStep_of_joins joins)
    · rw [List.mem_cons, List.mem_singleton]
      rintro (rfl | rfl) <;> cases chain <;> contradiction

/-- Behind an operator of a chain stands what can begin an operand. -/
theorem Chain.precedes_of_opens {chain : Chain} {op lexeme : Lexeme}
    (joins : chain.joins op = true) (opens : chain.operand.opens lexeme = true) :
    op.precedes lexeme = true := by
  cases op with
  | slash =>
    obtain rfl : chain = .steps := by cases chain <;> first | rfl | contradiction
    cases lexeme <;> first | rfl | contradiction
  | less | greater =>
    obtain rfl : chain = .relation := by cases chain <;> first | rfl | contradiction
    cases lexeme <;> first | rfl | contradiction
  | slashes | comma | bar | equal | notEqual | lessEqual | greaterEqual | plus | minus | times
  | word => rfl
  | _ => cases chain <;> contradiction

namespace Derivation

/-! ## First and last lexemes -/

/-- A phrase begins with a lexeme that it can begin with. -/
theorem opens_of_mem_head? {phrase : Phrase} (derivation : Derivation phrase) :
    ∀ lexeme ∈ derivation.lexemes.head?, phrase.opens lexeme = true := by
  intro lexeme mem
  rcases derivation.hasFirst with ⟨-, empty⟩ | ⟨token, rest, eq, opens⟩
  · rw [lexemes, empty] at mem
    contradiction
  · rw [lexemes, eq] at mem
    obtain rfl := Option.mem_some.1 mem
    exact opens

/-- A phrase ends with a lexeme that it can end with. -/
theorem closes_of_mem_getLast? {phrase : Phrase} (derivation : Derivation phrase) :
    ∀ lexeme ∈ derivation.lexemes.getLast?, phrase.closes lexeme = true := by
  intro lexeme mem
  rcases derivation.hasLast with ⟨-, empty⟩ | ⟨front, token, eq, closes⟩
  · rw [lexemes, empty] at mem
    contradiction
  · rw [lexemes, eq, List.map_append, List.map_singleton, List.getLast?_concat] at mem
    obtain rfl := Option.mem_some.1 mem
    exact closes

/-! ## Neighbours -/

/-- In a list of lexemes each one may stand behind the one in front of it. -/
abbrev Neighbours (lexemes : List Lexeme) : Prop :=
  lexemes.IsChain fun lexeme next => lexeme.precedes next = true

/-- What may stand in front of everything may stand in front of neighbours. -/
private theorem neighbours_cons {lexeme : Lexeme} {behind : List Lexeme}
    (free : ∀ next, lexeme.precedes next = true) (h : Neighbours behind) :
    Neighbours (lexeme :: behind) :=
  List.isChain_cons.2 ⟨fun next _ => free next, h⟩

/-- A phrase may stand in front of what starts no step and is no slash. -/
private theorem neighbours_append {phrase : Phrase} (derivation : Derivation phrase)
    (h : Neighbours derivation.lexemes) {next : Lexeme} {behind : List Lexeme}
    (h' : Neighbours (next :: behind)) (no_start : next.startsStep = false)
    (no_slash : next ∉ [.slash, .slashes]) : Neighbours (derivation.lexemes ++ next :: behind) := by
  refine List.isChain_append.2 ⟨h, h', fun lexeme mem other other_mem => ?_⟩
  obtain rfl : next = other := Option.mem_some.1 other_mem
  exact Lexeme.precedes_of_closes (derivation.closes_of_mem_getLast? lexeme mem) no_start no_slash

/-- A name may stand in front of a parenthesis. -/
private theorem neighbours_name (name : Derivation .qualifiedName) (h : Neighbours name.lexemes)
    {behind : List Lexeme} (h' : Neighbours (.openParen :: behind)) :
    Neighbours (name.lexemes ++ .openParen :: behind) := by
  refine List.isChain_append.2 ⟨h, h', fun lexeme mem other other_mem => ?_⟩
  obtain rfl : .openParen = other := Option.mem_some.1 other_mem
  have closes := name.closes_of_mem_getLast? lexeme mem
  cases lexeme <;> first | rfl | contradiction

/-- A phrase may stand in front of predicates. -/
private theorem neighbours_conditions {phrase : Phrase} (derivation : Derivation phrase)
    (h : Neighbours derivation.lexemes) {conditions : List Lexeme} (h' : Neighbours conditions)
    (opens : ∀ lexeme ∈ conditions.head?, lexeme = .openBracket) :
    Neighbours (derivation.lexemes ++ conditions) := by
  cases conditions with
  | nil => rwa [List.append_nil]
  | cons next behind =>
    obtain rfl : next = .openBracket := opens next rfl
    exact neighbours_append derivation h h' rfl (by decide)

/-- Predicates begin with a bracket if there are any. -/
private theorem eq_openBracket_of_mem_head? {conditions : Derivation .predicates} :
    ∀ lexeme ∈ conditions.lexemes.head?, lexeme = .openBracket := by
  intro lexeme mem
  have opens := conditions.opens_of_mem_head? lexeme mem
  cases lexeme <;> first | rfl | contradiction

/-- Dots may stand in front of predicates. -/
private theorem neighbours_dots {lexeme : Lexeme} (precedes : lexeme.precedes .openBracket = true)
    {conditions : Derivation .predicates} (h : Neighbours conditions.lexemes) :
    Neighbours (lexeme :: conditions.lexemes) := by
  refine List.isChain_cons.2 ⟨fun next mem => ?_, h⟩
  rw [eq_openBracket_of_mem_head? next mem]
  exact precedes

/-- **The lexemes of a derivation are neighbours.** -/
theorem neighbours {phrase : Phrase} (derivation : Derivation phrase) :
    Neighbours derivation.lexemes := by
  induction derivation
  all_goals simp only [lexemes, tokens, List.map_append, List.map_cons, List.map_nil] at *
  case operand ih | unnegated ih | relative ih | axisStep ih | filterStep ih | nameTest ih
  | argument ih => exact ih
  case link left op joins right ihl ihr =>
    -- The operator is the neighbour of what ends the left operand and of what begins the right one.
    refine List.isChain_append.2 ⟨ihl, List.isChain_cons.2 ⟨fun next mem => ?_, ihr⟩,
      fun lexeme mem other other_mem => ?_⟩
    · exact Chain.precedes_of_opens joins (right.opens_of_mem_head? next mem)
    · obtain rfl : op.lexeme = other := Option.mem_some.1 other_mem
      exact Chain.precedes_of_joins (left.closes_of_mem_getLast? lexeme mem) joins
  case negated ih | anywhere ih | reference ih => exact neighbours_cons (fun _ => rfl) ih
  case root | anyTest | plainName | text | float | integer => exact List.isChain_singleton _
  case absolute steps ih =>
    refine List.isChain_cons.2 ⟨fun next mem => ?_, ih⟩
    have opens := steps.opens_of_mem_head? next mem
    cases next <;> first | rfl | contradiction
  case testStep test conditions iht ihc =>
    exact neighbours_conditions test iht ihc eq_openBracket_of_mem_head?
  case attributeStep test conditions iht ihc =>
    exact neighbours_cons (fun _ => rfl)
      (neighbours_conditions test iht ihc eq_openBracket_of_mem_head?)
  case namedAxisStep test conditions iht ihc =>
    refine List.isChain_cons_cons.2 ⟨rfl, neighbours_cons (fun _ => rfl) ?_⟩
    exact neighbours_conditions test iht ihc eq_openBracket_of_mem_head?
  case selfStep ih | parentStep ih => exact neighbours_dots rfl ih
  case anyQualifiedTest | prefixedName =>
    exact List.isChain_cons_cons.2 ⟨rfl, List.isChain_cons_cons.2 ⟨rfl, List.isChain_singleton _⟩⟩
  case typeTest =>
    exact List.isChain_cons_cons.2 ⟨rfl, List.isChain_cons_cons.2 ⟨rfl, List.isChain_singleton _⟩⟩
  case typeTestFor =>
    refine List.isChain_cons_cons.2 ⟨rfl, List.isChain_cons_cons.2 ⟨rfl, ?_⟩⟩
    exact List.isChain_cons_cons.2 ⟨rfl, List.isChain_singleton _⟩
  case noPredicate => exact List.isChain_nil
  case morePredicates earlier last ihe ihl =>
    -- A predicate may stand in front of predicates as a head may.
    refine neighbours_conditions earlier ihe ihl fun lexeme mem => ?_
    have opens := last.opens_of_mem_head? lexeme mem
    cases lexeme <;> first | rfl | contradiction
  case predicate condition _ ih =>
    have closed := neighbours_append condition ih (List.isChain_singleton .closeBracket) rfl (by decide)
    exact neighbours_cons (fun _ => rfl) closed
  case filtered base conditions ihb ihc =>
    exact neighbours_conditions base ihb ihc eq_openBracket_of_mem_head?
  case group inner _ ih =>
    have closed := neighbours_append inner ih (List.isChain_singleton .closeParen) rfl (by decide)
    exact neighbours_cons (fun _ => rfl) closed
  case emptySequence => exact List.isChain_cons_cons.2 ⟨rfl, List.isChain_singleton _⟩
  case emptyCall name _ _ ih =>
    exact neighbours_name name ih (List.isChain_cons_cons.2 ⟨rfl, List.isChain_singleton _⟩)
  case call name _ arguments _ ihn iha =>
    have closed := neighbours_append arguments iha (List.isChain_singleton .closeParen) rfl (by decide)
    exact neighbours_name name ihn (neighbours_cons (fun _ => rfl) closed)
  case moreArguments earlier _ last ihe ihl =>
    exact neighbours_append earlier ihe (neighbours_cons (fun _ => rfl) ihl) rfl (by decide)

end Derivation

end LocationPath
