import LocationPath.Proofs.Grammar.Closing
import LocationPath.Proofs.Grammar.Move
import LocationPath.Proofs.Grammar.Parts
import LocationPath.Proofs.Grammar.Recognition
import LocationPath.Proofs.Lexing.Edges

/-! # The text of a part

The span of a node cuts a part out of the text, and this part alone is an expression again. Two
things could go wrong. The first token might be read in another way when nothing stands in front of
it; but no expression begins with an operator. The last one might be read in another way when
nothing stands behind it; but no expression ends with the name of a node type.

Main results: `Derivation.parse_of_tokenized` (an expression is parsed wherever it was cut out) and
`Node.parse_source` (every node of a tree is read from its own text). -/

namespace LocationPath

/-- A text that is moved has moved tokens. -/
theorem Token.shift_eq_move (old new : Nat) :
    Token.shift old new = Token.move (· + new - old) (· + new - old) := rfl

/-! ## Reading what was cut out -/

namespace Derivation

/-- **The text of an expression alone is parsed as the expression**, wherever it was cut out. -/
theorem parse_of_tokenized {afterOperand : Bool} {start : Nat} {text : Text}
    (derivation : Derivation .expression)
    (h : Tokenized afterOperand start text derivation.tokens) :
    Node.parse text = .ok (Node.mapSpan (Span.shift start 0) derivation.value) := by
  obtain ⟨first, rest, first_eq, opens⟩ := derivation.exists_first
  rw [first_eq] at h
  have shifted := (h.elsewhere (Level.no_operator_of_opens opens)).shift start 0 (Nat.le_refl _)
  rw [← first_eq, Nat.add_zero, Nat.sub_self, Token.shift_eq_move, ← tokens_move] at shifted
  exact Node.parse_eq_ok_iff_exists.2 ⟨_, shifted, value_move_level _ _ derivation⟩

/-- The nodes of an expression that was cut out start no earlier than its text. -/
theorem le_start_of_tokenized {afterOperand : Bool} {start : Nat} {text : Text}
    (derivation : Derivation .expression)
    (h : Tokenized afterOperand start text derivation.tokens) :
    ∀ node ∈ Node.nodes derivation.value, start ≤ node.span.start := by
  intro node mem
  obtain ⟨first, first_mem, -, -, start_eq, -⟩ := ((derivation.nests h.inOrder).2 node mem).on
  rw [start_eq]
  exact (h.within first first_mem).1

/-- The text from the first token of an expression through the last one is the expression. -/
theorem tokenized_cut {text : Text} (derivation : Derivation .expression)
    {before behind : List Token}
    (h : Tokenized false 0 text (before ++ derivation.tokens ++ behind)) :
    Tokenized (Token.endsOperand false before) (Node.span derivation.value).start
      (Node.source derivation.value text) derivation.tokens := by
  rw [List.append_assoc] at h
  have covers := (derivation.nests h.inOrder.right.left).1
  exact (h.cut covers derivation.no_type_of_mem_getLast?).1

/-- A bracket is a single character. -/
private theorem stop_eq_of_bracket {text : Text} {tokens : List Token} {lexeme : Lexeme}
    {span : Span} (h : Tokenized false 0 text tokens) (mem : ⟨lexeme, span⟩ ∈ tokens)
    (bracket : lexeme = .openBracket ∨ lexeme = .closeBracket) : span.stop = span.start + 1 := by
  refine h.stop_eq_of_mem_symbols lexeme mem fun after c more spelled => ?_
  obtain rfl | rfl := bracket
  · cases spelled with
    | symbol mem => simp_all [Lexeme.symbols]
  · cases spelled with
    | symbol mem => simp_all [Lexeme.symbols]

/-- The text between the brackets of a predicate is the condition. -/
theorem tokenized_cutInside {text : Text} (condition : Derivation .expression)
    {opening closing : Span} {before behind : List Token}
    (h : Tokenized false 0 text (before ++
      (⟨.openBracket, opening⟩ :: (condition.tokens ++ ⟨.closeBracket, closing⟩ :: behind)))) :
    Tokenized false (opening.start + 1) ((opening.through closing).cutInside text)
      condition.tokens := by
  have opening_eq : opening.stop = opening.start + 1 :=
    stop_eq_of_bracket h (by simp) (.inl rfl)
  have closing_eq : closing.stop = closing.start + 1 :=
    stop_eq_of_bracket h (by simp) (.inr rfl)
  have le := (h.within ⟨.closeBracket, closing⟩ (by simp)).2
  obtain ⟨-, order, cross⟩ := Token.InOrder.append_iff.1 h.inOrder
  obtain ⟨-, order, cross_opening⟩ := Token.InOrder.cons_iff.1 order
  obtain ⟨-, order, cross_condition⟩ := Token.InOrder.append_iff.1 order
  obtain ⟨-, -, cross_closing⟩ := Token.InOrder.cons_iff.1 order
  have between := cross_opening ⟨.closeBracket, closing⟩ (by simp)
  dsimp only at cross_opening cross_condition cross_closing le between
  rw [List.append_cons] at h
  -- All that stands in front ends before the text between the brackets, and all behind starts later.
  have inside : Tokenized (Token.endsOperand false (before ++ [⟨.openBracket, opening⟩]))
      (opening.start + 1) (text.slice (opening.start + 1) (closing.stop - 1)) condition.tokens := by
    refine h.slice (fun token mem => ?_) (fun token mem => ?_) (fun token mem => ?_)
      (fun token mem => ?_) (by omega) (by omega) condition.no_type_of_mem_getLast?
    · obtain mem | mem := List.mem_append.1 mem
      · have := cross token mem ⟨.openBracket, opening⟩ (by simp)
        dsimp only at this
        omega
      · rw [List.mem_singleton.1 mem]
        exact Nat.le_of_eq opening_eq
    · have := cross_opening token mem
      omega
    · have := cross_condition token mem ⟨.closeBracket, closing⟩ (by simp)
      dsimp only at this
      omega
    · obtain rfl | mem := List.mem_cons.1 mem
      · dsimp only
        omega
      · have := cross_closing token mem
        omega
  rwa [Token.endsOperand, List.getLast?_concat] at inside

end Derivation

/-! ## The nodes of a tree -/

namespace Node

/-- **Every expression inside an accepted text is read from its own text**: the source of a node is
accepted and gives the node, moved to the start; and what stands between the brackets of a predicate
gives its condition. Since nothing inside starts earlier, the move takes no position below zero. -/
theorem parse_source {text : Text} {tree : Node} (parsed : parse text = .ok tree) :
    (∀ node ∈ tree.nodes, node.standsAlone = true →
      parse (node.source text) = .ok (node.mapSpan (Span.shift node.span.start 0)) ∧
        ∀ part ∈ node.nodes, node.span.start ≤ part.span.start) ∧
    ∀ span condition, predicate span condition ∈ tree.nodes →
      ∃ inner, (predicate span condition).innerSource? text = some inner ∧
        parse inner = .ok (condition.mapSpan (Span.shift (span.start + 1) 0)) ∧
          ∀ part ∈ condition.nodes, span.start + 1 ≤ part.span.start := by
  obtain ⟨derivation, tokenized, rfl⟩ := parse_eq_ok_iff_exists.1 parsed
  have partOf := derivation.partOf_of_mem_nodes
  constructor
  · intro node mem alone
    cases partOf node mem with
    | nodeTest | predicate => simp [standsAlone] at alone
    | expression part inside =>
      -- A part of any level is a whole expression, and the span of the node cuts out just its tokens.
      obtain ⟨whole, tokens_eq, value_eq⟩ := part.exists_expression
      obtain ⟨before, behind, inside⟩ := inside
      rw [← tokens_eq] at inside
      rw [← inside] at tokenized
      have cut := whole.tokenized_cut tokenized
      rw [← value_eq]
      exact ⟨whole.parse_of_tokenized cut, whole.le_start_of_tokenized cut⟩
  · intro span condition mem
    generalize node_eq : predicate span condition = node at mem
    cases partOf node mem with
    | nodeTest test => exact Node.noConfusion node_eq
    | predicate condition inside =>
      obtain ⟨rfl, rfl⟩ := predicate.inj node_eq
      obtain ⟨before, behind, inside⟩ := inside
      rw [← inside] at tokenized
      have cut := condition.tokenized_cutInside (by simpa using tokenized)
      exact ⟨_, rfl, condition.parse_of_tokenized cut, condition.le_start_of_tokenized cut⟩
    | expression part inside =>
      have alone : part.value.standsAlone = true := part.standsAlone
      rw [← node_eq] at alone
      contradiction

/-- Words that are operators in their place are names where they stand alone. -/
theorem parse_source_of_words : ∃ tree, parse "* * div[@mod or (*, 2)[1]]".toList = .ok tree ∧
    tree.nodes.map (·.source "* * div[@mod or (*, 2)[1]]".toList) =
      ["* * div[@mod or (*, 2)[1]]".toList, "*".toList, "*".toList,
        "div[@mod or (*, 2)[1]]".toList, "div".toList, "[@mod or (*, 2)[1]]".toList,
        "@mod or (*, 2)[1]".toList, "@mod".toList, "mod".toList, "(*, 2)[1]".toList,
        "(*, 2)".toList, "*".toList, "*".toList, "2".toList, "[1]".toList, "1".toList] ∧
    (∀ node ∈ tree.nodes, node.standsAlone = true →
      parse (node.source "* * div[@mod or (*, 2)[1]]".toList) =
        .ok (node.mapSpan (Span.shift node.span.start 0))) ∧
    ∀ span condition, predicate span condition ∈ tree.nodes →
      ∃ inner, (predicate span condition).innerSource? "* * div[@mod or (*, 2)[1]]".toList =
        some inner ∧ parse inner = .ok (condition.mapSpan (Span.shift (span.start + 1) 0)) := by
  have sources : (parse "* * div[@mod or (*, 2)[1]]".toList).map
      (·.nodes.map (·.source "* * div[@mod or (*, 2)[1]]".toList)) = .ok
      ["* * div[@mod or (*, 2)[1]]".toList, "*".toList, "*".toList,
        "div[@mod or (*, 2)[1]]".toList, "div".toList, "[@mod or (*, 2)[1]]".toList,
        "@mod or (*, 2)[1]".toList, "@mod".toList, "mod".toList, "(*, 2)[1]".toList,
        "(*, 2)".toList, "*".toList, "*".toList, "2".toList, "[1]".toList, "1".toList] := by
    decide +kernel
  cases parsed : parse "* * div[@mod or (*, 2)[1]]".toList with
  | error error =>
    rw [parsed] at sources
    contradiction
  | ok tree =>
    rw [parsed] at sources
    obtain ⟨alone, inside⟩ := parse_source parsed
    refine ⟨tree, rfl, Except.ok.inj sources, fun node mem h => (alone node mem h).1, ?_⟩
    intro span condition mem
    obtain ⟨inner, eq, read, -⟩ := inside span condition mem
    exact ⟨inner, eq, read⟩

end Node

end LocationPath
