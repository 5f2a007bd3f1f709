import LocationPath.Proofs.Grammar.Move
import LocationPath.Proofs.Grammar.Recognition
import LocationPath.Proofs.Printing.Faithful

/-! # Printing and reading

The text of a tree is read as the same tree at other places exactly if the tree is printed
faithfully. In one direction the printed lexemes are read again and the derivation is moved to them;
in the other direction the text is one that is read as what it prints.

Main definition: `Node.forgetSpans`. Main results: `Derivation.lexesAs_render_iff` and
`Node.parse_render_iff`. -/

namespace LocationPath

/-! ## Trees at other places -/

variable (f : Span → Span)

/-- A node test ends in a name at another place if it does. -/
theorem NodeTest.endsInName_mapSpan (test : NodeTest) :
    (test.mapSpan f).endsInName = test.endsInName := by
  cases test <;> rfl

namespace Node

/-- A tree with all of its places forgotten. -/
def forgetSpans (node : Node) : Node := node.mapSpan fun _ => ⟨0, 0⟩

/-- The children of a tree go with it. -/
theorem children_mapSpan (node : Node) :
    (node.mapSpan f).children = node.children.map (mapSpan f) := by
  cases node <;> simp [mapSpan, children, mapSpanAll_eq_map]

/-- A tree is printed the same at another place. -/
theorem render_mapSpan (node : Node) : (node.mapSpan f).render = node.render := by
  induction node using children_induction with
  | of_children node ih =>
    -- The induction hypothesis for lists of children.
    have all : ∀ nodes : List Node, (∀ inner ∈ nodes, inner ∈ node.children) →
        (nodes.map (mapSpan f)).map render = nodes.map render := by
      intro nodes subset
      rw [List.map_map]
      exact List.map_congr_left fun inner mem => ih inner (subset inner mem)
    cases node with
    | unary | absolute | predicate =>
      rw [mapSpan, render, render, ih _ List.mem_cons_self]
    | binary span left op right =>
      rw [mapSpan, render, render, ih left (by simp [children]), ih right (by simp [children])]
    | filter span base predicates =>
      rw [mapSpan, render, render, ih base (by simp [children]), mapSpanAll_eq_map,
        renderAll_eq_map, renderAll_eq_map, all predicates fun _ mem => List.mem_cons_of_mem _ mem]
    | step span axis test predicates =>
      rw [mapSpan, render, render, NodeTest.render_mapSpan, mapSpanAll_eq_map, renderAll_eq_map,
        renderAll_eq_map, all predicates fun _ mem => List.mem_cons_of_mem _ mem]
    | dots _ _ nodes | call _ _ _ nodes | sequence _ nodes =>
      rw [mapSpan, render, render, mapSpanAll_eq_map, renderAll_eq_map, renderAll_eq_map,
        all nodes fun _ mem => mem]
    | nodeTest test => exact NodeTest.render_mapSpan f test
    | root | «variable» | literal => rfl

/-- An operand ends in a name at another place if it does. -/
theorem endsInName_mapSpan (node : Node) : (node.mapSpan f).endsInName = node.endsInName := by
  induction node using children_induction with
  | of_children node ih =>
    cases node with
    | unary _ _ inner | absolute _ _ inner => exact ih inner List.mem_cons_self
    | binary span left op right => exact ih right (by simp [children])
    | step span axis test predicates =>
      rw [mapSpan, endsInName, endsInName, test.endsInName_mapSpan, mapSpanAll_eq_map,
        List.isEmpty_map]
    | _ => rfl

/-- A node is misprinted at another place if it is. -/
theorem misprints_mapSpan (node : Node) : (node.mapSpan f).misprints = node.misprints := by
  cases node with
  | binary span left op right => rw [mapSpan, misprints, misprints, endsInName_mapSpan]
  | literal span value => cases value <;> rfl
  | _ => rfl

/-- A tree is faithful at another place if it is. -/
theorem faithful_mapSpan (node : Node) : (node.mapSpan f).Faithful ↔ node.Faithful := by
  induction node using children_induction with
  | of_children node ih =>
    rw [faithful_iff_children, faithful_iff_children node, misprints_mapSpan, children_mapSpan,
      List.forall_mem_map]
    exact and_congr_right fun _ => forall₂_congr ih

/-- A tree that is moved twice goes where both take it. -/
theorem mapSpan_mapSpan (g : Span → Span) (node : Node) :
    (node.mapSpan g).mapSpan f = node.mapSpan (f ∘ g) := by
  induction node using children_induction with
  | of_children node ih =>
    -- The induction hypothesis for lists of children.
    have all : ∀ nodes : List Node, (∀ inner ∈ nodes, inner ∈ node.children) →
        (nodes.map (mapSpan g)).map (mapSpan f) = nodes.map (mapSpan (f ∘ g)) := by
      intro nodes subset
      rw [List.map_map]
      exact List.map_congr_left fun inner mem => ih inner (subset inner mem)
    cases node with
    | unary | absolute | predicate =>
      rw [mapSpan, mapSpan, mapSpan, ih _ List.mem_cons_self]
      rfl
    | binary span left op right =>
      rw [mapSpan, mapSpan, mapSpan, ih left (by simp [children]), ih right (by simp [children])]
      rfl
    | filter span base predicates =>
      rw [mapSpan, mapSpan, mapSpan, ih base (by simp [children]), mapSpanAll_eq_map,
        mapSpanAll_eq_map, mapSpanAll_eq_map,
        all predicates fun _ mem => List.mem_cons_of_mem _ mem]
      rfl
    | step span axis test predicates =>
      rw [mapSpan, mapSpan, mapSpan, mapSpanAll_eq_map, mapSpanAll_eq_map, mapSpanAll_eq_map,
        all predicates fun _ mem => List.mem_cons_of_mem _ mem]
      cases test <;> rfl
    | dots _ _ nodes | call _ _ _ nodes | sequence _ nodes =>
      rw [mapSpan, mapSpan, mapSpan, mapSpanAll_eq_map, mapSpanAll_eq_map, mapSpanAll_eq_map,
        all nodes fun _ mem => mem]
      rfl
    | nodeTest test => cases test <;> rfl
    | root | «variable» | literal => rfl

/-- A moved tree is the same when all places are forgotten. -/
theorem forgetSpans_mapSpan (node : Node) : (node.mapSpan f).forgetSpans = node.forgetSpans :=
  mapSpan_mapSpan _ f node

end Node

/-! ## Lexemes of texts -/

/-- A legible lexeme can be spelled somewhere. -/
theorem Lexeme.Legible.exists_spelled {afterOperand : Bool} {lexemes : List Lexeme}
    (h : Legible afterOperand lexemes) : ∀ lexeme ∈ lexemes,
      ∃ afterOperand c more, lexeme.Spelled afterOperand c more := by
  induction h with
  | nil => simp
  | @cons afterOperand lexeme lexemes fits rest ih =>
    intro other mem
    rcases List.mem_cons.1 mem with rfl | mem
    · exact ⟨afterOperand, fits.spelled⟩
    · exact ih other mem

/-- Among legible lexemes no name is empty, and no star is taken for a name. -/
theorem Lexeme.Legible.not_mem {afterOperand : Bool} {lexemes : List Lexeme}
    (h : Legible afterOperand lexemes) :
    Lexeme.name [] ∉ lexemes ∧ Lexeme.name ['*'] ∉ lexemes := by
  constructor
  · intro mem
    obtain ⟨_, c, more, spelled⟩ := h.exists_spelled _ mem
    exact absurd spelled.name_eq (by simp)
  · intro mem
    obtain ⟨_, c, more, spelled⟩ := h.exists_spelled _ mem
    obtain ⟨rfl, rfl⟩ := List.cons.inj spelled.name_eq
    cases spelled with
    | name first =>
      revert first
      decide +kernel
    | symbol mem => simp [symbols] at mem

/-- **The text of a tree is read as the lexemes that the tree is built of** exactly if the tree is
faithful. -/
theorem Derivation.lexesAs_render_iff {derivation : Derivation .expression} {text : Text}
    (tokenized : Tokenized false 0 text derivation.tokens) :
    Text.LexesAs false (Node.render derivation.value) derivation.lexemes ↔
      Node.Faithful derivation.value := by
  have legible : Lexeme.Legible false derivation.lexemes :=
    tokenized.legible derivation.neighbours
  obtain ⟨named, star⟩ := legible.not_mem
  exact (legible.lexesAs_iff (derivation.prints named)).trans (derivation.plain_iff star)

namespace Node

/-! ## The round trip -/

/-- **A tree is read again from its text**, but for its places, exactly if it is faithful. -/
theorem exists_parse_render_iff {text : Text} {tree : Node} (parsed : parse text = .ok tree) :
    (∃ again, parse tree.render = .ok again ∧ again.forgetSpans = tree.forgetSpans) ↔
      tree.Faithful := by
  obtain ⟨derivation, tokenized, rfl⟩ := parse_eq_ok_iff_exists.1 parsed
  constructor
  · rintro ⟨again, parsed_again, same⟩
    obtain ⟨derivation', tokenized', rfl⟩ := parse_eq_ok_iff_exists.1 parsed_again
    -- What has been read from the text has this text itself.
    have text_eq : render derivation'.value = render derivation.value := by
      have rendered := congrArg render same
      rwa [forgetSpans, forgetSpans, render_mapSpan, render_mapSpan] at rendered
    have faithful : Faithful derivation'.value := by
      rw [← Derivation.lexesAs_render_iff tokenized', text_eq]
      exact ⟨derivation'.tokens, tokenized', rfl⟩
    have forgotten : (forgetSpans derivation'.value).Faithful := (faithful_mapSpan _ _).2 faithful
    rw [same] at forgotten
    exact (faithful_mapSpan _ _).1 forgotten
  · intro faithful
    obtain ⟨tokens, tokenized', lexemes⟩ :=
      (Derivation.lexesAs_render_iff tokenized).2 faithful
    obtain ⟨starts, stops, moved, tokens_eq, value_eq⟩ :=
      derivation.exists_of_lexemes_eq tokenized.inOrder lexemes
    refine ⟨moved.value, ?_, ?_⟩
    · rw [parse_eq_ok_iff_exists]
      exact ⟨moved, tokens_eq ▸ tokenized', rfl⟩
    · rw [value_eq, forgetSpans_mapSpan]

/-- **A tree is read again from its text**, but for its places, exactly if no minus sign in it stands
behind an operand that ends in a name, and no number in it is written as infinity or with an
exponent. -/
theorem parse_render_iff {text : Text} {tree : Node} (parsed : parse text = .ok tree) :
    (∃ again, parse tree.render = .ok again ∧ again.forgetSpans = tree.forgetSpans) ↔
      (∀ span left right, .binary span left ['-'] right ∈ tree.nodes → left.endsInName = false) ∧
        ∀ span number, .literal span (.float number) ∈ tree.nodes →
          number.written ≠ "inf".toList ∧ 'e' ∉ number.written :=
  (exists_parse_render_iff parsed).trans (faithful_iff tree)

/-- A difference of two names is not read again from its text, which is one name. -/
theorem parse_render_of_difference : ∃ tree, parse "a - b".toList = .ok tree ∧
    tree.render = "a-b".toList ∧
      ¬∃ again, parse tree.render = .ok again ∧ again.forgetSpans = tree.forgetSpans := by
  have shown : (parse "a - b".toList).map (fun tree => (tree.render, tree.nodes.any misprints)) =
      .ok ("a-b".toList, true) := by decide +kernel
  cases h : parse "a - b".toList with
  | error error =>
    rw [h] at shown
    contradiction
  | ok tree =>
    rw [h] at shown
    obtain ⟨text_eq, misprinted⟩ := Prod.mk.inj (Except.ok.inj shown)
    refine ⟨tree, rfl, text_eq, fun round_trip => ?_⟩
    have faithful := (faithful_iff tree).2 ((parse_render_iff h).1 round_trip)
    obtain ⟨part, mem, wrong⟩ := List.any_eq_true.1 misprinted
    rw [faithful part mem] at wrong
    contradiction

end Node

end LocationPath
