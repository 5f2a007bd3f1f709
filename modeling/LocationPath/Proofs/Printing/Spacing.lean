import LocationPath.Node.Printer
import LocationPath.Proofs.Placement.Nesting
import LocationPath.Proofs.Printing.Respelling

/-! # Printed texts

A printed text is the least spellings of its lexemes one behind another, with a space on both sides
of an operator word and, in some places, one behind a comma. What a derivation builds is printed
from the lexemes that it derives.

Main definitions: `Lexeme.Margins`, `Text.Prints`. Main result: `Derivation.prints`. -/

namespace LocationPath

/-- Whether a lexeme is an operator word. -/
def Lexeme.isWord : Lexeme → Bool
  | .word _ => true
  | _ => false

/-- The spaces in front of a printed lexeme and behind it. -/
inductive Lexeme.Margins : Lexeme → Text → Text → Prop where
  | word (word : OperatorWord) : Margins (.word word) [' '] [' ']
  | comma : Margins .comma [] [' ']
  | none {lexeme : Lexeme} (no_word : lexeme.isWord = false) : Margins lexeme [] []

namespace Text

/-- A text prints some lexemes. -/
inductive Prints : Text → List Lexeme → Prop where
  | nil : Prints [] []
  | cons {lexeme : Lexeme} {before after text : Text} {lexemes : List Lexeme}
    (margins : lexeme.Margins before after) (rest : Prints text lexemes) :
    Prints (before ++ (lexeme.spelling ++ (after ++ text))) (lexeme :: lexemes)

/-! ## Putting printed texts together -/

/-- Printed texts behind one another print the lexemes of both. -/
theorem Prints.append {text text' : Text} {lexemes lexemes' : List Lexeme}
    (h : text.Prints lexemes) (h' : text'.Prints lexemes') :
    (text ++ text').Prints (lexemes ++ lexemes') := by
  induction h with
  | nil => exact h'
  | cons margins rest ih =>
    simp only [List.append_assoc]
    exact .cons margins ih

/-- A lexeme that is no operator word is printed as it is spelled. -/
theorem prints_spelling (lexeme : Lexeme) (no_word : lexeme.isWord = false) :
    lexeme.spelling.Prints [lexeme] := by
  have printed := Prints.cons (.none no_word) .nil
  rwa [List.append_nil, List.append_nil] at printed

/-- A lexeme that is no operator word may be printed in front of others. -/
theorem Prints.cons_spelling {text : Text} {lexemes : List Lexeme} (h : text.Prints lexemes)
    (lexeme : Lexeme) (no_word : lexeme.isWord = false) :
    (lexeme.spelling ++ text).Prints (lexeme :: lexemes) :=
  (prints_spelling lexeme no_word).append h

/-- A lexeme that is no operator word may be printed behind others. -/
theorem Prints.concat_spelling {text : Text} {lexemes : List Lexeme} (h : text.Prints lexemes)
    (lexeme : Lexeme) (no_word : lexeme.isWord = false) :
    (text ++ lexeme.spelling).Prints (lexemes ++ [lexeme]) :=
  h.append (prints_spelling lexeme no_word)

/-- What stands between parentheses is printed with them. -/
theorem Prints.between_parens {text : Text} {lexemes : List Lexeme} (h : text.Prints lexemes) :
    (between '(' ')' text).Prints (.openParen :: (lexemes ++ [.closeParen])) := by
  exact (h.concat_spelling .closeParen rfl).cons_spelling .openParen rfl

/-- What stands between brackets is printed with them. -/
theorem Prints.between_brackets {text : Text} {lexemes : List Lexeme} (h : text.Prints lexemes) :
    (between '[' ']' text).Prints (.openBracket :: (lexemes ++ [.closeBracket])) := by
  exact (h.concat_spelling .closeBracket rfl).cons_spelling .openBracket rfl

/-- An operator of a chain is printed with its spaces. -/
theorem prints_operator {chain : Chain} {lexeme : Lexeme} (joins : chain.joins lexeme = true) :
    (renderOperator lexeme.value.plain).Prints [lexeme] := by
  have printed := prints_spelling lexeme
  cases lexeme with
  | word word =>
    have found : OperatorWord.ofName? (Lexeme.word word).value.plain = some word :=
      OperatorWord.ofName?_spelling word
    rw [renderOperator, found, if_pos Option.isSome_some]
    exact .cons (.word word) .nil
  | comma => exact .cons .comma .nil
  | slash | slashes | bar | equal | notEqual | less | lessEqual | greater | greaterEqual | plus
  | minus | times => exact printed rfl
  | _ => cases chain <;> contradiction

/-- Texts between marks, in two parts. -/
theorem intercalate_append {mark : Text} {first rest : List Text} (first_ne : first ≠ [])
    (rest_ne : rest ≠ []) :
    mark.intercalate (first ++ rest) = mark.intercalate first ++ mark ++ mark.intercalate rest := by
  induction first with
  | nil => exact absurd rfl first_ne
  | cons text first ih =>
    by_cases alone : first = []
    · rw [alone, List.singleton_append, List.intercalate_cons_of_ne_nil rest_ne,
        List.intercalate_singleton]
    · rw [List.cons_append, List.intercalate_cons_of_ne_nil (List.append_ne_nil_of_left_ne_nil alone _),
        List.intercalate_cons_of_ne_nil alone, ih alone]
      simp only [List.append_assoc]

end Text

/-! ## Expressions between commas -/

namespace Node

/-- An expression has at least one part between its commas. -/
theorem commaItems_ne_nil (node : Node) : node.commaItems ≠ [] := by
  fun_induction commaItems node with
  | case1 span left right ihl ihr => exact List.append_ne_nil_of_left_ne_nil ihl _
  | case2 => exact List.cons_ne_nil _ _
  | case3 => exact List.cons_ne_nil _ _

/-- The parts between commas, with commas between them, are the text of the whole. -/
theorem intercalate_commaItems (node : Node) :
    [',', ' '].intercalate (node.commaItems.map render) = node.render := by
  fun_induction commaItems node with
  | case1 span left right ihl ihr =>
    have parts_ne : ∀ node : Node, node.commaItems.map render ≠ [] := fun node =>
      mt List.map_eq_nil_iff.1 node.commaItems_ne_nil
    rw [List.map_append, Text.intercalate_append (parts_ne left) (parts_ne right), ihl, ihr, render]
    rfl
  | case2 => exact List.intercalate_singleton
  | case3 => exact List.intercalate_singleton

end Node

/-! ## Parts of a step -/

/-- A qualifier that is not empty is printed with its colon. -/
theorem qualified_some {qualifier : Text} (ne : qualifier ≠ []) (name : Text) :
    qualified (some qualifier) name = qualifier ++ ':' :: name := by
  cases qualifier with
  | nil => exact absurd rfl ne
  | cons c rest => rfl

/-- A step is printed as its axis, its node test and its predicates. -/
theorem Node.render_step (span : Span) (axis : Axis) (test : NodeTest) (predicates : List Node) :
    Node.render (.step span axis test predicates) =
      axis.render ++ (test.render ++ predicates.flatMap Node.render) := by
  rw [Node.render, Node.renderAll_eq_map, List.append_assoc]
  rfl

/-- Dots are printed with their predicates. -/
theorem Node.render_dots (span : Span) (abbreviation : Text) (predicates : List Node) :
    Node.render (.dots span abbreviation predicates) =
      abbreviation ++ predicates.flatMap Node.render := by
  rw [Node.render, Node.renderAll_eq_map]
  rfl

/-- A filter is printed as its base and its predicates. -/
theorem Node.render_filter (span : Span) (base : Node) (predicates : List Node) :
    Node.render (.filter span base predicates) = base.render ++ predicates.flatMap Node.render := by
  rw [Node.render, Node.renderAll_eq_map]
  rfl

/-- The name of an axis that is not empty is printed with its mark. -/
theorem Axis.render_named {name : Text} (ne : name ≠ []) :
    (Axis.named name).render = name ++ [':', ':'] := by
  rw [Axis.render, if_neg (by simpa using ne)]

/-! ## Derivations -/

/-- The text of what a phrase stands for. -/
def Phrase.render : (phrase : Phrase) → phrase.Value → Text
  | .level _, node | .axisStep, node | .filter, node | .predicate, node | .primary, node =>
    Node.render node
  | .nodeTest, test => NodeTest.render test
  | .qualifiedName, name => qualified (QualifiedName.qualifier name) name.name
  | .predicates, nodes => List.flatMap Node.render nodes
  | .arguments, nodes => [','].intercalate (List.map Node.render nodes)

namespace Derivation

/-- The lexemes that a derivation derives. -/
def lexemes {phrase : Phrase} (derivation : Derivation phrase) : List Lexeme :=
  derivation.tokens.map (·.lexeme)

/-- A call has as many arguments as are written, at least one. -/
theorem arguments_ne_nil : (derivation : Derivation .arguments) → derivation.value ≠ []
  | .argument _ => List.cons_ne_nil _ _
  | .moreArguments _ _ _ => List.append_ne_nil_of_right_ne_nil _ (List.cons_ne_nil _ _)

/-- **What a derivation builds is printed from the lexemes that it derives**, provided that no name
among them is empty. -/
theorem prints {phrase : Phrase} (derivation : Derivation phrase)
    (named : Lexeme.name [] ∉ derivation.lexemes) :
    (phrase.render derivation.value).Prints derivation.lexemes := by
  induction derivation
  all_goals simp only [lexemes, tokens, List.map_append, List.map_cons, List.map_nil,
    List.mem_append, List.mem_cons, not_or, Phrase.render, value] at *
  case operand ih | unnegated ih | relative ih | axisStep ih | filterStep ih | nameTest ih =>
    exact ih named
  case link joins _ ihl ihr =>
    have printed := (ihl named.1).append ((Text.prints_operator joins).append (ihr named.2.2))
    rwa [Node.render, List.append_assoc]
  case negated ih => exact (ih named.2).cons_spelling .minus rfl
  case root => exact Text.prints_spelling .slash rfl
  case absolute ih => exact (ih named.2).cons_spelling .slash rfl
  case anywhere ih => exact (ih named.2).cons_spelling .slashes rfl
  case testStep iht ihc =>
    rw [Node.render_step]
    exact (iht named.1).append (ihc named.2)
  case attributeStep iht ihc =>
    rw [Node.render_step]
    exact ((iht named.2.1).append (ihc named.2.2)).cons_spelling .atSign rfl
  case namedAxisStep iht ihc =>
    rw [Node.render_step, Axis.render_named (Ne.symm (mt (congrArg Lexeme.name) named.1)), List.append_assoc]
    have test_printed := (iht named.2.2.1).append (ihc named.2.2.2)
    exact (test_printed.cons_spelling .axisMark rfl).cons_spelling (.name _) rfl
  case selfStep ih =>
    rw [Node.render_dots]
    exact (ih named.2).cons_spelling .dot rfl
  case parentStep ih =>
    rw [Node.render_dots]
    exact (ih named.2).cons_spelling .dots rfl
  case anyTest => exact Text.prints_spelling .star rfl
  case anyQualifiedTest =>
    have ne := Ne.symm (mt (congrArg Lexeme.name) named.1)
    rw [NodeTest.render, qualified_some ne]
    have star_printed := Text.prints_spelling .star rfl
    exact (star_printed.cons_spelling .colon rfl).cons_spelling (.name _) rfl
  case typeTest => exact (Text.Prints.nil.between_parens).cons_spelling (.nodeType _) rfl
  case typeTestFor value _ _ =>
    have literal_printed := Text.prints_spelling (.literal value) rfl
    exact literal_printed.between_parens.cons_spelling (.nodeType _) rfl
  case plainName => exact Text.prints_spelling (.name _) rfl
  case prefixedName name _ _ _ =>
    rw [qualified_some (Ne.symm (mt (congrArg Lexeme.name) named.1))]
    have name_printed := Text.prints_spelling (.name name) rfl
    exact (name_printed.cons_spelling .colon rfl).cons_spelling (.name _) rfl
  case noPredicate => exact .nil
  case morePredicates ihe ihl =>
    rw [List.flatMap_append, List.flatMap_singleton]
    exact (ihe named.1).append (ihl named.2)
  case predicate ih =>
    rw [Node.render]
    exact (ih named.2.1).between_brackets
  case filtered base conditions ihb ihc =>
    have printed := (ihb named.1).append (ihc named.2)
    split
    · -- Without predicates the base stands alone.
      rename_i empty
      rw [List.isEmpty_iff.1 empty, List.flatMap_nil, List.append_nil] at printed
      exact printed
    · rwa [Node.render_filter]
  case reference ih => exact (ih named.2).cons_spelling .dollar rfl
  case group ih =>
    rw [Node.render, Node.renderAll_eq_map, Node.intercalate_commaItems]
    exact (ih named.2.1).between_parens
  case emptySequence => exact Text.Prints.nil.between_parens
  case text value _ => exact Text.prints_spelling (.literal value) rfl
  case float value _ => exact Text.prints_spelling (.float value) rfl
  case integer value _ => exact Text.prints_spelling (.integer value) rfl
  case emptyCall ih => exact (ih named.1).append Text.Prints.nil.between_parens
  case call ihn iha =>
    rw [Node.render, Node.renderAll_eq_map]
    exact (ihn named.1).append (iha named.2.2.1).between_parens
  case argument ih =>
    rw [List.intercalate_singleton]
    exact ih named
  case moreArguments earlier _ _ ihe ihl =>
    have ne : List.map Node.render earlier.value ≠ [] :=
      mt List.map_eq_nil_iff.1 earlier.arguments_ne_nil
    rw [Text.intercalate_append ne (List.cons_ne_nil _ _), List.intercalate_singleton,
      List.append_assoc]
    exact (ihe named.1).append ((ihl named.2.2).cons_spelling .comma rfl)

end Derivation

end LocationPath
