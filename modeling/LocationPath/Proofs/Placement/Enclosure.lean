import LocationPath.Proofs.Grammar.Parts
import LocationPath.Proofs.Grammar.Recognition
import LocationPath.Proofs.Lexing.Edges

/-! # Where nodes stand in a text

The nodes of a tree stand on tokens of the text, each inside its parent and behind the nodes in front
of it. A predicate begins and ends with its brackets, and a sequence with its parentheses. Around the
whole expression there is only layout.

Main definition: `Node.BetweenMarks`. Main results: `Derivation.parenthesized` (a sequence comes from
tokens between parentheses), `Node.PartOf.betweenMarks` and `Node.parse_nested`. -/

namespace LocationPath

/-! ## Marks -/

/-- A text begins and ends with given characters. -/
def Text.IsBetween (opening closing : Char) (text : Text) : Prop :=
  text.head? = some opening ∧ text.getLast? = some closing

/-- The text from one mark through another one begins and ends with them. -/
theorem Tokenized.isBetween {text : Text} {before inner behind : List Token}
    {first last : Lexeme} {opening closing : Span} {c d : Char}
    (first_mem : (first, c, []) ∈ Lexeme.symbols) (last_mem : (last, d, []) ∈ Lexeme.symbols)
    (no_type : ∀ name, last ≠ .nodeType name)
    (h : Tokenized false 0 text
      (before ++ (⟨first, opening⟩ :: (inner ++ [⟨last, closing⟩]) ++ behind))) :
    ((opening.through closing).cut text).IsBetween c d := by
  have last_eq : (⟨first, opening⟩ :: (inner ++ [⟨last, closing⟩]) : List Token).getLast? =
      some ⟨last, closing⟩ := by
    rw [← List.cons_append, List.getLast?_concat]
  have covers : (opening.through closing).Covers (⟨first, opening⟩ :: (inner ++ [⟨last, closing⟩])) :=
    ⟨⟨first, opening⟩, rfl, ⟨last, closing⟩, last_eq, rfl, rfl⟩
  obtain ⟨cut, length⟩ := h.cut covers fun token mem => by
    rw [last_eq] at mem
    exact Option.mem_some.1 mem ▸ no_type
  obtain ⟨c', more, tail, text_eq, spelled⟩ := cut.exists_head rfl
  obtain ⟨after, d', more', front, text_eq', spelled'⟩ := cut.exists_last last_eq length.symm
  obtain ⟨rfl, rfl⟩ := spelled.eq_symbol first_mem
  obtain ⟨rfl, rfl⟩ := spelled'.eq_symbol last_mem
  exact ⟨by rw [text_eq]; rfl, by rw [text_eq', List.getLast?_concat]⟩

namespace Derivation

/-- What `parenthesized` says of one derivation. -/
def Parenthesized : {phrase : Phrase} → Derivation phrase → Prop
  | .level _, derivation | .axisStep, derivation | .filter, derivation | .primary, derivation =>
    ∀ span items, derivation.value = Node.sequence span items → ∃ opening inner closing,
      derivation.tokens = ⟨.openParen, opening⟩ :: (inner ++ [⟨.closeParen, closing⟩]) ∧
        span = opening.through closing
  | .nodeTest, _ | .qualifiedName, _ | .predicates, _ | .predicate, _ | .arguments, _ => True

/-- A sequence is derived from tokens between parentheses. -/
theorem parenthesized {phrase : Phrase} (derivation : Derivation phrase) :
    derivation.Parenthesized := by
  induction derivation with
  | operand only ih | unnegated only ih | relative only ih | axisStep only ih
  | filterStep only ih => exact ih
  | group opening inner closing =>
    intro span items eq
    exact ⟨opening, inner.tokens, closing, rfl, (Node.sequence.inj eq).1.symm⟩
  | emptySequence opening closing =>
    intro span items eq
    exact ⟨opening, [], closing, rfl, (Node.sequence.inj eq).1.symm⟩
  | filtered base conditions ih =>
    intro span items eq
    -- With predicates it would be a filter expression.
    cases conditions with
    | noPredicate =>
      rw [tokens, tokens, List.append_nil]
      exact ih span items eq
    | morePredicates earlier last => simp [value] at eq
  | nameTest | anyTest | anyQualifiedTest | typeTest | typeTestFor | plainName | prefixedName
  | noPredicate | morePredicates | predicate | argument | moreArguments => trivial
  | _ => exact fun span items eq => Node.noConfusion eq

end Derivation

namespace Node

/-- A predicate is written in brackets, and a sequence in parentheses. -/
def BetweenMarks (text : Text) : Node → Prop
  | .predicate span _ => (span.cut text).IsBetween '[' ']'
  | .sequence span _ => (span.cut text).IsBetween '(' ')'
  | _ => True

/-- The parts of the tokens of a text are written between their marks. -/
theorem PartOf.betweenMarks {text : Text} {tokens : List Token} {node : Node}
    (tokenized : Tokenized false 0 text tokens) (h : node.PartOf tokens) :
    node.BetweenMarks text := by
  cases h with
  | nodeTest test => trivial
  | predicate condition inside =>
    obtain ⟨before, behind, inside⟩ := inside
    rw [← inside, List.append_assoc] at tokenized
    exact tokenized.isBetween (by simp [Lexeme.symbols]) (by simp [Lexeme.symbols]) (by simp)
  | @expression level part inside =>
    cases value_eq : (part.value : Node) with
    | sequence span items =>
      obtain ⟨opening, inner, closing, tokens_eq, rfl⟩ := part.parenthesized span items value_eq
      obtain ⟨before, behind, inside⟩ := inside
      rw [tokens_eq] at inside
      rw [← inside, List.append_assoc] at tokenized
      exact tokenized.isBetween (by simp [Lexeme.symbols]) (by simp [Lexeme.symbols]) (by simp)
    -- A predicate is no value of a level.
    | predicate span condition =>
      have alone : Node.standsAlone part.value = true := part.standsAlone
      rw [value_eq] at alone
      contradiction
    | _ => trivial

/-- **The nodes of an accepted text are nested**: each starts and stops with tokens of the text, is
not empty, and has its children inside, one behind another; predicates are written in brackets and
sequences in parentheses; and outside of the root there is only layout. -/
theorem parse_nested {text : Text} {tree : Node} (parsed : parse text = .ok tree) :
    (∀ node ∈ tree.nodes, node.PlacedOn (Lexing.ofText text).tokens ∧
      node.span.stop ≤ text.length ∧ node.BetweenMarks text) ∧
    (text.take tree.span.start).all isLayout = true ∧
    (text.drop tree.span.stop).all isLayout = true := by
  obtain ⟨derivation, tokenized, rfl⟩ := parse_eq_ok_iff_exists.1 parsed
  have order := tokenized.inOrder
  obtain ⟨covers, nested⟩ := derivation.nests order
  have lexed : (Lexing.ofText text).tokens = derivation.tokens := by
    rw [Lexing.ofText, tokenized_iff.1 tokenized]
  have le_length : ∀ {node : Node}, node.span.On derivation.tokens →
      node.span.stop ≤ text.length := by
    rintro node ⟨-, -, last, mem, -, stop⟩
    have := (tokenized.within last mem).2
    omega
  refine ⟨fun node mem => ?_, ?_, ?_⟩
  · have placed := nested node mem
    exact ⟨lexed ▸ placed, le_length placed.on,
      (derivation.partOf_of_mem_nodes node mem).betweenMarks tokenized⟩
  · -- No token is in front of the root.
    have lt := covers.start_lt_stop order
    have le := le_length covers.on
    have all : Tokenized false 0 text ([] ++ derivation.tokens) := tokenized
    have front := all.take (by simp) (fun token mem => covers.start_le order mem) (by omega) (by simp)
    exact front.layout_of_nil
  · have le := le_length covers.on
    have back : Tokenized false 0 text (derivation.tokens ++ []) := by simpa using tokenized
    have rest := back.drop (Nat.zero_le _) (fun token mem => covers.le_stop order mem) (by simp)
      (by omega)
    exact rest.layout_of_nil

/-- Nodes stand in the text without the layout around the expression, and a predicate of a group
stands behind its parenthesis. -/
theorem parse_nested_of_group : ∃ tree, parse " (a, b[c] )[1]/@d ".toList = .ok tree ∧
    tree.nodes.map (·.source " (a, b[c] )[1]/@d ".toList) =
      ["(a, b[c] )[1]/@d".toList, "(a, b[c] )[1]".toList, "(a, b[c] )".toList, "a".toList,
        "a".toList, "b[c]".toList, "b".toList, "[c]".toList, "c".toList, "c".toList, "[1]".toList,
        "1".toList, "@d".toList, "d".toList] ∧
    (∀ node ∈ tree.nodes, node.PlacedOn (Lexing.ofText " (a, b[c] )[1]/@d ".toList).tokens ∧
      node.span.stop ≤ " (a, b[c] )[1]/@d ".toList.length ∧
        node.BetweenMarks " (a, b[c] )[1]/@d ".toList) ∧
    (" (a, b[c] )[1]/@d ".toList.take tree.span.start).all isLayout = true ∧
    (" (a, b[c] )[1]/@d ".toList.drop tree.span.stop).all isLayout = true := by
  have sources : (parse " (a, b[c] )[1]/@d ".toList).map
      (·.nodes.map (·.source " (a, b[c] )[1]/@d ".toList)) = .ok
      ["(a, b[c] )[1]/@d".toList, "(a, b[c] )[1]".toList, "(a, b[c] )".toList, "a".toList,
        "a".toList, "b[c]".toList, "b".toList, "[c]".toList, "c".toList, "c".toList, "[1]".toList,
        "1".toList, "@d".toList, "d".toList] := by
    decide +kernel
  obtain ⟨tree, parsed, sources_eq⟩ := map_eq_ok_iff.1 sources
  obtain ⟨placed, front, behind⟩ := parse_nested parsed
  exact ⟨tree, parsed, sources_eq, placed, front, behind⟩

end Node

end LocationPath
