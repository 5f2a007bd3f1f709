import LocationPath.Proofs.Printing.Gaps

/-! # Trees that are printed faithfully

What goes wrong when printed lexemes are read again is seen in the tree: a minus sign behind an
operand that ends in a name, and a number that is not written in places.

Main definitions: `Node.endsInName`, `Node.misprints` and `Node.Faithful`. Main result:
`Derivation.plain_iff`. -/

namespace LocationPath

/-- Whether a node test ends in a name. -/
def NodeTest.endsInName : NodeTest → Bool
  | .name _ _ text => text != ['*']
  | .type _ _ _ => false

namespace Node

/-- Whether an operand ends in the name of a node test or of a variable, with no predicate behind
it. -/
def endsInName : Node → Bool
  | .unary _ _ operand => operand.endsInName
  | .binary _ _ _ right => right.endsInName
  | .absolute _ _ relative => relative.endsInName
  | .step _ _ test predicates => predicates.isEmpty && test.endsInName
  | .variable _ _ _ => true
  | _ => false

/-- Whether a node is printed so that it is read otherwise: a minus sign behind a name, or a number
that is not written in places. -/
def misprints : Node → Bool
  | .binary _ left op _ => op == ['-'] && left.endsInName
  | .literal _ (.float number) => !number.isInPlaces
  | _ => false

/-- No node of a tree is printed so that it is read otherwise. -/
def Faithful (node : Node) : Prop := ∀ part ∈ node.nodes, part.misprints = false

/-- A tree is faithful if its root and its children are. -/
theorem faithful_iff_children (node : Node) : node.Faithful ↔
    node.misprints = false ∧ ∀ child ∈ node.children, child.Faithful := by
  rw [Faithful, nodes_eq, List.forall_mem_cons]
  refine and_congr_right fun _ => ?_
  constructor
  · intro all child mem part part_mem
    exact all part (List.mem_flatMap.2 ⟨child, mem, part_mem⟩)
  · intro all part mem
    obtain ⟨child, child_mem, part_mem⟩ := List.mem_flatMap.1 mem
    exact all child child_mem part part_mem

/-- A node that is no operation between two operands and no literal is faithful if its children
are. -/
theorem faithful_iff_of_not_misprints {node : Node} (sound : node.misprints = false) :
    node.Faithful ↔ ∀ child ∈ node.children, child.Faithful := by
  rw [faithful_iff_children, sound]
  exact and_iff_right rfl

/-- A node test is faithful. -/
theorem faithful_nodeTest (test : NodeTest) : (nodeTest test).Faithful := by
  rw [faithful_iff_of_not_misprints rfl]
  simp [children]

/-- A step is faithful if its predicates are. -/
theorem faithful_step (span : Span) (axis : Axis) (test : NodeTest) (predicates : List Node) :
    (step span axis test predicates).Faithful ↔ ∀ predicate ∈ predicates, predicate.Faithful := by
  rw [faithful_iff_of_not_misprints rfl, children, List.forall_mem_cons]
  exact and_iff_right (faithful_nodeTest test)

/-- A filter is faithful if its base and its predicates are. -/
theorem faithful_filter (span : Span) (base : Node) (predicates : List Node) :
    (filter span base predicates).Faithful ↔
      base.Faithful ∧ ∀ predicate ∈ predicates, predicate.Faithful := by
  rw [faithful_iff_of_not_misprints rfl, children, List.forall_mem_cons]

/-- An operation is faithful if both operands are and no minus sign stands behind a name. -/
theorem faithful_binary (span : Span) (left : Node) (op : Text) (right : Node) :
    (binary span left op right).Faithful ↔
      (op == ['-'] && left.endsInName) = false ∧ left.Faithful ∧ right.Faithful := by
  rw [faithful_iff_children, children, List.forall_mem_cons, List.forall_mem_singleton]
  rfl

/-- A tree is faithful if no minus sign in it stands behind a name and all of its numbers are
written in places. -/
theorem faithful_iff (node : Node) : node.Faithful ↔
    (∀ span left right, .binary span left ['-'] right ∈ node.nodes → left.endsInName = false) ∧
      ∀ span number, .literal span (.float number) ∈ node.nodes →
        number.written ≠ "inf".toList ∧ 'e' ∉ number.written := by
  constructor
  · intro faithful
    constructor
    · intro span left right mem
      simpa [misprints] using faithful _ mem
    · intro span number mem
      rw [← Binary64.isInPlaces_iff]
      simpa [misprints] using faithful _ mem
  -- All other nodes are printed without fail.
  · rintro ⟨apart, in_places⟩ part mem
    cases part with
    | binary span left op right =>
      by_cases minus : op = ['-']
      · subst minus
        rw [misprints, apart span left right mem, Bool.and_false]
      · rw [misprints, beq_eq_false_iff_ne.2 minus, Bool.false_and]
    | literal span value =>
      cases value with
      | float number =>
        rw [misprints, (Binary64.isInPlaces_iff number).2 (in_places span number mem)]
        rfl
      | text => rfl
      | integer => rfl
    | _ => rfl

/-- An expression is faithful if its parts between commas are. -/
theorem faithful_commaItems (node : Node) :
    (∀ item ∈ node.commaItems, item.Faithful) ↔ node.Faithful := by
  fun_induction commaItems node with
  | case1 span left right ihl ihr =>
    rw [List.forall_mem_append, ihl, ihr, faithful_iff_children (.binary span left [','] right)]
    simp [misprints, children]
  | case2 => simp
  | case3 => simp

end Node

/-! ## The last lexeme of a derivation -/

/-- Whether a lexeme is a name. -/
def Lexeme.isName : Lexeme → Bool
  | .name _ => true
  | _ => false

/-- Whether what a phrase stands for ends in a name. -/
def Phrase.endsInName : (phrase : Phrase) → phrase.Value → Bool
  | .level _, node | .axisStep, node | .filter, node | .predicate, node | .primary, node =>
    Node.endsInName node
  | .nodeTest, test => NodeTest.endsInName test
  | .qualifiedName, _ => true
  | .predicates, _ => false
  | .arguments, nodes => (List.getLast? nodes).any Node.endsInName

/-- Whether the last of some lexemes is a name. -/
def Lexeme.lastIsName (lexemes : List Lexeme) : Bool := lexemes.getLast?.any Lexeme.isName

/-- Only the last part of some lexemes matters to the last one. -/
theorem Lexeme.lastIsName_append (front : List Lexeme) {back : List Lexeme} (ne : back ≠ []) :
    lastIsName (front ++ back) = lastIsName back := by
  rw [lastIsName, List.getLast?_append_of_ne_nil _ ne]
  rfl

/-- A lexeme in front of others does not matter to the last one. -/
theorem Lexeme.lastIsName_cons (lexeme : Lexeme) {back : List Lexeme} (ne : back ≠ []) :
    lastIsName (lexeme :: back) = lastIsName back :=
  lastIsName_append [lexeme] ne

namespace Derivation

/-- All phrases but predicates have lexemes. -/
theorem lexemes_ne_nil {phrase : Phrase} (derivation : Derivation phrase)
    (ne : phrase ≠ .predicates) : derivation.lexemes ≠ [] := by
  rcases derivation.hasLast with ⟨eq, -⟩ | ⟨front, token, eq, -⟩
  · exact absurd eq ne
  · rw [lexemes, eq, List.map_append]
    exact List.append_ne_nil_of_right_ne_nil _ (List.cons_ne_nil _ _)

/-- No predicate ends in a name, so that it is the head that does where there are no predicates. -/
private theorem lastIsName_conditions (head : List Lexeme) (conditions : Derivation .predicates) :
    Lexeme.lastIsName (head ++ conditions.lexemes) =
      (List.isEmpty conditions.value && Lexeme.lastIsName head) := by
  cases conditions with
  | noPredicate =>
    show Lexeme.lastIsName (head ++ []) = Lexeme.lastIsName head
    rw [List.append_nil]
  | morePredicates earlier last =>
    have not_empty : List.isEmpty (earlier.value ++ [last.value]) = false := by simp
    have closed : Lexeme.lastIsName last.lexemes = false := by
      rw [Lexeme.lastIsName, Option.any_eq_false]
      intro lexeme mem
      have closes := last.closes_of_mem_getLast? lexeme mem
      cases lexeme <;> first | rfl | contradiction
    show Lexeme.lastIsName (head ++ (earlier.morePredicates last).lexemes) =
      (List.isEmpty (earlier.value ++ [last.value]) && _)
    rw [not_empty, Bool.false_and, lexemes, tokens, List.map_append, ← List.append_assoc]
    exact (Lexeme.lastIsName_append _ (last.lexemes_ne_nil (by simp))).trans closed

/-- A name is no star if no star among its lexemes is taken for a name. -/
private theorem name_ne_star (name : Derivation .qualifiedName)
    (star : Lexeme.name ['*'] ∉ name.lexemes) : name.value.name ≠ ['*'] := by
  rintro eq
  cases name with
  | plainName text span =>
    obtain rfl : text = ['*'] := eq
    exact star (by simp [lexemes, tokens])
  | prefixedName qualifier text first colon last =>
    obtain rfl : text = ['*'] := eq
    exact star (by simp [lexemes, tokens])

/-- **The last lexeme of a derivation is a name** if what it builds ends in one, provided that no
star among its lexemes is taken for a name. -/
theorem lastIsName_lexemes {phrase : Phrase} (derivation : Derivation phrase)
    (star : Lexeme.name ['*'] ∉ derivation.lexemes) :
    Lexeme.lastIsName derivation.lexemes = phrase.endsInName derivation.value := by
  induction derivation
  all_goals simp only [lexemes, tokens, List.map_append, List.map_cons, List.map_nil,
    List.mem_append, List.mem_cons, not_or, Phrase.endsInName, value] at *
  case operand ih | unnegated ih | relative ih | axisStep ih | filterStep ih => exact ih star
  case link right ihl ihr =>
    rw [Lexeme.lastIsName_append _ (List.cons_ne_nil _ _)]
    exact (Lexeme.lastIsName_cons _ (right.lexemes_ne_nil (by simp))).trans (ihr star.2.2)
  case negated inner ih | absolute inner ih | anywhere inner ih =>
    exact (Lexeme.lastIsName_cons _ (inner.lexemes_ne_nil (by simp))).trans (ih star.2)
  case testStep test conditions iht ihc =>
    refine (lastIsName_conditions test.lexemes conditions).trans ?_
    exact congrArg (_ && ·) (iht star.1)
  case attributeStep test conditions iht ihc =>
    refine (lastIsName_conditions (_ :: test.lexemes) conditions).trans ?_
    rw [Lexeme.lastIsName_cons _ (test.lexemes_ne_nil (by simp))]
    exact congrArg (_ && ·) (iht star.2.1)
  case namedAxisStep test conditions iht ihc =>
    refine (lastIsName_conditions (_ :: _ :: test.lexemes) conditions).trans ?_
    rw [Lexeme.lastIsName_cons _ (List.cons_ne_nil _ _),
      Lexeme.lastIsName_cons _ (test.lexemes_ne_nil (by simp))]
    exact congrArg (_ && ·) (iht star.2.2.1)
  case selfStep conditions _ | parentStep conditions _ =>
    exact (lastIsName_conditions [_] conditions).trans (Bool.and_false _)
  case nameTest name ih =>
    rw [NodeTest.endsInName, bne_iff_ne.2 (name_ne_star name star)]
    exact ih star
  case root | anyTest | anyQualifiedTest | typeTest | typeTestFor | plainName | prefixedName
  | noPredicate | emptySequence | text | float | integer => rfl
  case morePredicates earlier last _ _ =>
    -- One predicate is enough to end the list with a bracket.
    exact lastIsName_conditions earlier.lexemes (.morePredicates .noPredicate last)
  case predicate | group =>
    rw [Lexeme.lastIsName_cons _ (by simp), Lexeme.lastIsName_append _ (by simp)]
    rfl
  case filtered base conditions ihb _ =>
    refine (lastIsName_conditions base.lexemes conditions).trans ?_
    by_cases empty : List.isEmpty conditions.value = true
    · rw [if_pos empty, empty, Bool.true_and]
      exact ihb star.1
    · rw [if_neg empty, Bool.eq_false_iff.2 empty]
      rfl
  case reference name ih =>
    exact (Lexeme.lastIsName_cons _ (name.lexemes_ne_nil (by simp))).trans (ih star.2)
  case emptyCall =>
    rw [Lexeme.lastIsName_append _ (by simp)]
    rfl
  case call =>
    rw [Lexeme.lastIsName_append _ (by simp), Lexeme.lastIsName_cons _ (by simp),
      Lexeme.lastIsName_append _ (by simp)]
    rfl
  case argument ih => exact ih star
  case moreArguments last _ ihl =>
    rw [Lexeme.lastIsName_append _ (by simp), List.getLast?_concat]
    exact (Lexeme.lastIsName_cons _ (last.lexemes_ne_nil (by simp))).trans (ihl star.2.2)

end Derivation

/-! ## Plain lexemes and faithful trees -/

namespace Lexeme

/-- Two lexemes are read apart unless the first one is a name and the second one a minus sign. -/
theorem apart_iff {lexeme next : Lexeme} :
    lexeme.apart next = true ↔ lexeme.isName = false ∨ next ≠ .minus := by
  cases lexeme with
  | name name => cases next <;> simp [apart, isName]
  | _ => simp [apart, isName]

/-- What is no name and no number does not matter in front of others. -/
theorem plain_cons_of_free {lexeme : Lexeme} (no_name : lexeme.isName = false)
    (readable : lexeme.isReadable = true) {lexemes : List Lexeme} :
    Plain (lexeme :: lexemes) ↔ Plain lexemes := by
  rw [plain_cons]
  constructor
  · exact fun plain => plain.2.2
  · exact fun plain => ⟨readable, fun _ _ => apart_iff.2 (.inl no_name), plain⟩

/-- One lexeme is plain if it is readable. -/
theorem plain_singleton {lexeme : Lexeme} : Plain [lexeme] ↔ lexeme.isReadable = true := by
  rw [plain_cons]
  constructor
  · exact fun plain => plain.1
  · exact fun readable => ⟨readable, by simp, plain_nil⟩

/-- Lexemes are plain with others behind them that do not begin with a minus sign if both are. -/
theorem plain_append_of_head {front back : List Lexeme}
    (no_minus : ∀ next ∈ back.head?, next ≠ .minus) :
    Plain (front ++ back) ↔ Plain front ∧ Plain back := by
  rw [plain_append]
  constructor
  · exact fun plain => ⟨plain.1, plain.2.1⟩
  · exact fun plain => ⟨plain.1, plain.2, fun _ _ next mem => apart_iff.2 (.inr (no_minus next mem))⟩

/-- A mark that is no minus sign does not matter between others. -/
theorem plain_append_mark {front back : List Lexeme} {mark : Lexeme} (no_minus : mark ≠ .minus)
    (no_name : mark.isName = false) (readable : mark.isReadable = true) :
    Plain (front ++ mark :: back) ↔ Plain front ∧ Plain back := by
  rw [plain_append_of_head, plain_cons_of_free no_name readable]
  intro next mem
  obtain rfl : mark = next := Option.mem_some.1 mem
  exact no_minus

/-- Lexemes with an operator behind them are plain if all are and no name stands in front of a minus
sign. -/
theorem plain_append_operator {front back : List Lexeme} {op : Lexeme} (no_name : op.isName = false)
    (readable : op.isReadable = true) : Plain (front ++ op :: back) ↔
      (op == .minus && lastIsName front) = false ∧ Plain front ∧ Plain back := by
  rw [plain_append, plain_cons_of_free no_name readable]
  have junction : (∀ last ∈ front.getLast?, ∀ next ∈ (op :: back).head?, last.apart next = true) ↔
      (op == .minus && lastIsName front) = false := by
    rw [lastIsName, List.head?_cons]
    cases front.getLast? with
    | none => simp
    | some last =>
      simp only [Option.mem_some_iff, forall_eq', apart_iff, Option.any_some]
      cases last.isName <;> simp
  rw [junction]
  constructor
  · exact fun plain => ⟨plain.2.2, plain.1, plain.2.1⟩
  · exact fun plain => ⟨plain.2.1, plain.2.2, plain.1⟩

end Lexeme

/-- What a phrase stands for is faithful. -/
def Phrase.Faithful : (phrase : Phrase) → phrase.Value → Prop
  | .level _, node | .axisStep, node | .filter, node | .predicate, node | .primary, node =>
    Node.Faithful node
  | .nodeTest, _ | .qualifiedName, _ => True
  | .predicates, nodes | .arguments, nodes => ∀ node ∈ nodes, Node.Faithful node

namespace Derivation

/-- An operator of a chain is the minus sign if it is printed as one. -/
private theorem operator_eq_minus {chain : Chain} {op : Lexeme} (joins : chain.joins op = true) :
    (op.value.plain == ['-']) = (op == .minus) := by
  cases op with
  | word word => cases word <;> rfl
  | literal | float | integer | name | nodeType => cases chain <;> contradiction
  | _ => rfl

/-- An operator of a chain is no name and no number. -/
private theorem operator_free {chain : Chain} {op : Lexeme} (joins : chain.joins op = true) :
    op.isName = false ∧ op.isReadable = true := by
  cases op with
  | float | name => cases chain <;> contradiction
  | _ => exact ⟨rfl, rfl⟩

/-- Lexemes with predicates behind them are plain if both are. -/
private theorem plain_conditions (front : List Lexeme) (conditions : Derivation .predicates) :
    Lexeme.Plain (front ++ conditions.lexemes) ↔
      Lexeme.Plain front ∧ Lexeme.Plain conditions.lexemes := by
  refine Lexeme.plain_append_of_head fun next mem => ?_
  rintro rfl
  have opens := conditions.opens_of_mem_head? .minus mem
  contradiction

/-- **The lexemes of a derivation are plain exactly if what it builds is faithful**, provided that no
star among them is taken for a name. -/
theorem plain_iff {phrase : Phrase} (derivation : Derivation phrase)
    (star : Lexeme.name ['*'] ∉ derivation.lexemes) :
    Lexeme.Plain derivation.lexemes ↔ phrase.Faithful derivation.value := by
  induction derivation
  all_goals simp only [lexemes, tokens, List.map_append, List.map_cons, List.map_nil,
    List.mem_append, List.mem_cons, not_or, Phrase.Faithful, value] at *
  case operand ih | unnegated ih | relative ih | axisStep ih | filterStep ih => exact ih star
  case link left op joins right ihl ihr =>
    obtain ⟨no_name, readable⟩ := operator_free joins
    rw [Lexeme.plain_append_operator no_name readable, Node.faithful_binary,
      operator_eq_minus joins, ihl star.1, ihr star.2.2]
    have last := left.lastIsName_lexemes star.1
    rw [lexemes] at last
    rw [last]
    rfl
  case negated ih | absolute ih | anywhere ih =>
    rw [Lexeme.plain_cons_of_free rfl rfl, Node.faithful_iff_of_not_misprints rfl, Node.children,
      List.forall_mem_singleton]
    exact ih star.2
  case testStep test conditions iht ihc =>
    rw [Node.faithful_step]
    exact (plain_conditions test.lexemes conditions).trans
      ((and_iff_right ((iht star.1).2 trivial)).trans (ihc star.2))
  case attributeStep test conditions iht ihc =>
    rw [Node.faithful_step, Lexeme.plain_cons_of_free rfl rfl]
    exact (plain_conditions test.lexemes conditions).trans
      ((and_iff_right ((iht star.2.1).2 trivial)).trans (ihc star.2.2))
  case namedAxisStep test conditions iht ihc =>
    rw [Node.faithful_step]
    refine (@Lexeme.plain_append_mark [_] _ .axisMark (by simp) rfl rfl).trans ?_
    refine (and_iff_right (Lexeme.plain_singleton.2 rfl)).trans ?_
    exact (plain_conditions test.lexemes conditions).trans
      ((and_iff_right ((iht star.2.2.1).2 trivial)).trans (ihc star.2.2.2))
  case selfStep ih | parentStep ih =>
    rw [Lexeme.plain_cons_of_free rfl rfl, Node.faithful_iff_of_not_misprints rfl]
    exact ih star.2
  case nameTest ih => exact ih star
  case anyTest | anyQualifiedTest | typeTest | typeTestFor | plainName | prefixedName =>
    simp [Lexeme.plain_cons, Lexeme.plain_nil, Lexeme.isReadable, Lexeme.apart]
  case noPredicate => simp [Lexeme.plain_nil]
  case morePredicates earlier last ihe ihl =>
    have plain := plain_conditions earlier.lexemes (.morePredicates .noPredicate last)
    refine plain.trans ((and_congr (ihe star.1) (ihl star.2)).trans ?_)
    simp [or_imp, forall_and]
  case predicate ih =>
    rw [Lexeme.plain_cons_of_free rfl rfl, Lexeme.plain_append_mark (by simp) rfl rfl,
      Node.faithful_iff_of_not_misprints rfl, Node.children, List.forall_mem_singleton,
      and_iff_left Lexeme.plain_nil]
    exact ih star.2.1
  case filtered base conditions ihb ihc =>
    refine (plain_conditions base.lexemes conditions).trans ?_
    refine (and_congr (ihb star.1) (ihc star.2)).trans ?_
    split
    · -- Without predicates the base stands alone.
      rename_i empty
      rw [List.isEmpty_iff.1 empty]
      exact and_iff_left (by simp)
    · rw [Node.faithful_filter]
  case reference ih =>
    rw [Lexeme.plain_cons_of_free rfl rfl, Node.faithful_iff_of_not_misprints rfl]
    refine (ih star.2).trans ?_
    simp [Node.children]
  case group inner _ ih =>
    rw [Lexeme.plain_cons_of_free rfl rfl, Lexeme.plain_append_mark (by simp) rfl rfl,
      Node.faithful_iff_of_not_misprints rfl, Node.children, Node.faithful_commaItems,
      and_iff_left Lexeme.plain_nil]
    exact ih star.2.1
  case root | emptySequence | text | integer =>
    rw [Node.faithful_iff_of_not_misprints rfl]
    simp [Lexeme.plain_cons, Lexeme.plain_nil, Lexeme.isReadable, Lexeme.apart, Node.children]
  case float =>
    rw [Lexeme.plain_singleton, Node.faithful_iff_children]
    simp [Lexeme.isReadable, Node.misprints, Node.children]
  case emptyCall ih =>
    rw [Lexeme.plain_append_mark (by simp) rfl rfl, Node.faithful_iff_of_not_misprints rfl,
      and_iff_left (Lexeme.plain_singleton.2 rfl)]
    exact (ih star.1).trans (by simp [Node.children])
  case call ihn iha =>
    rw [Lexeme.plain_append_mark (by simp) rfl rfl, Lexeme.plain_append_mark (by simp) rfl rfl,
      Node.faithful_iff_of_not_misprints rfl, and_iff_left Lexeme.plain_nil]
    exact (and_iff_right ((ihn star.1).2 trivial)).trans (iha star.2.2.1)
  case argument ih =>
    refine (ih star).trans ?_
    simp
  case moreArguments ihe ihl =>
    rw [Lexeme.plain_append_mark (by simp) rfl rfl, ihe star.1, ihl star.2.2]
    simp [or_imp, forall_and]

end Derivation

end LocationPath
