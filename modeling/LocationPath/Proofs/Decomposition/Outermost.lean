import LocationPath.Decomposition
import LocationPath.Proofs.Grammar.Recognition
import LocationPath.Proofs.Placement.Nesting
import Mathlib.Data.List.Forall2

/-! # The outermost steps

The outermost steps of a tree are those that a walk from the root would stop at. They stand side by
side inside the tree, and each of them has its place and its texts in the source.

Main definitions: `Node.outermost` (the outermost steps of a tree) and `Node.candidate?` (the step
of a node with its place). Main results: `Node.outermost_row` and `Node.candidate?_eq_ok_iff`. -/

namespace LocationPath

/-- One computation for each element of a list comes to a list of results if each comes to its
own one. -/
theorem mapM_eq_ok_iff {ε α β : Type} {f : α → Except ε β} {list : List α} {results : List β} :
    list.mapM f = .ok results ↔ List.Forall₂ (fun a b => f a = .ok b) list results := by
  induction list generalizing results with
  | nil =>
    rw [List.mapM_nil, List.forall₂_nil_left_iff]
    exact ⟨fun h => (Except.ok.inj h).symm, fun h => h ▸ rfl⟩
  | cons a list ih =>
    rw [List.mapM_cons, bind_eq_ok_iff, List.forall₂_cons_left_iff]
    constructor
    · rintro ⟨b, made, h⟩
      obtain ⟨others, others_made, h⟩ := bind_eq_ok_iff.1 h
      exact ⟨b, others, made, ih.1 others_made, (Except.ok.inj h).symm⟩
    · rintro ⟨b, others, made, others_made, rfl⟩
      exact ⟨b, made, bind_eq_ok_iff.2 ⟨others, ih.2 others_made, rfl⟩⟩

namespace Node

/-- The outermost steps and primary expressions of a tree, in the order of the text. -/
def outermost : Node → List Node
  | .unary _ _ operand => operand.outermost
  | .binary _ left _ right => left.outermost ++ right.outermost
  | .absolute _ _ relative => relative.outermost
  | .predicate _ _ | .root _ _ | .nodeTest _ => []
  | .filter span base predicates => [.filter span base predicates]
  | .step span axis test predicates => [.step span axis test predicates]
  | .dots span abbreviation predicates => [.dots span abbreviation predicates]
  | .variable span qualifier name => [.variable span qualifier name]
  | .call span qualifier name arguments => [.call span qualifier name arguments]
  | .sequence span items => [.sequence span items]
  | .literal span value => [.literal span value]

/-- The step that a node stands for, with its texts cut out of the source, and the place of the
node. -/
def candidate? (source : Text) (node : Node) : Except PathError Candidate := do
  let step ← Step.of? (node.ownText source)
    (node.ownPredicates.map fun predicate => predicate.span.cutInside source)
  return ⟨step, node.span⟩

/-- The outermost steps of a tree are inside it. -/
theorem within_of_mem_outermost {tree : Node} {tokens : List Token} (h : tree.Nested tokens) :
    ∀ node ∈ tree.outermost, node.span.within tree.span = true := by
  fun_induction outermost tree with
  | case1 span op operand ih | case3 span op operand ih =>
    intro node mem
    exact Span.within_trans (ih (h.row.nested operand (by simp [children])) node mem)
      (h.root.inside operand (by simp [children]))
  | case2 span left op right ihl ihr =>
    intro node mem
    obtain mem | mem := List.mem_append.1 mem
    · exact Span.within_trans (ihl (h.row.nested left (by simp [children])) node mem)
        (h.root.inside left (by simp [children]))
    · exact Span.within_trans (ihr (h.row.nested right (by simp [children])) node mem)
        (h.root.inside right (by simp [children]))
  | case4 | case5 | case6 => simp
  | _ =>
    intro node mem
    rw [List.mem_singleton.1 mem]
    exact Span.within_self _

/-- The outermost steps of a tree are a row. -/
theorem outermost_row {tree : Node} {tokens : List Token} (h : tree.Nested tokens) :
    Row tree.outermost tokens := by
  fun_induction outermost tree with
  | case1 span op operand ih | case3 span op operand ih =>
    exact ih (h.row.nested operand (by simp [children]))
  | case2 span left op right ihl ihr =>
    have left_nested := h.row.nested left (by simp [children])
    have right_nested := h.row.nested right (by simp [children])
    have apart : left.span.stop ≤ right.span.start := by simpa [children] using h.root.ordered
    exact (ihl left_nested).append_of_within (ihr right_nested)
      (within_of_mem_outermost left_nested) (within_of_mem_outermost right_nested) apart
  | case4 | case5 | case6 => exact row_nil tokens
  | _ => exact row_singleton h

/-- The step of a node has the texts and the place of the node. -/
theorem candidate?_eq_ok_iff {source : Text} {node : Node} {candidate : Candidate} :
    candidate? source node = .ok candidate ↔
      (node.ownText source).trim = candidate.step.text ∧
        node.ownPredicates.map (·.span.cutInside source) = candidate.step.predicates ∧
          node.span = candidate.span := by
  rw [candidate?, bind_eq_ok_iff]
  constructor
  · rintro ⟨step, made, result⟩
    obtain rfl := Except.ok.inj result
    obtain ⟨text_eq, predicates_eq⟩ := Step.of?_eq_ok_iff.1 made
    exact ⟨text_eq, predicates_eq, rfl⟩
  · rintro ⟨text_eq, predicates_eq, span_eq⟩
    refine ⟨candidate.step, Step.of?_eq_ok_iff.2 ⟨text_eq, predicates_eq⟩, ?_⟩
    rw [span_eq]
    rfl

/-- The steps of some nodes have the places of the nodes. -/
theorem span_of_mapM_candidate? {source : Text} {nodes : List Node} {candidates : List Candidate}
    (h : nodes.mapM (candidate? source) = .ok candidates) :
    candidates.map (·.span) = nodes.map span := by
  induction mapM_eq_ok_iff.1 h with
  | nil => rfl
  | cons first others ih =>
    rw [List.map_cons, List.map_cons, ih (mapM_eq_ok_iff.2 others),
      (candidate?_eq_ok_iff.1 first).2.2]

/-- Each step has the place of one of the nodes. -/
theorem exists_span_eq_of_mem {source : Text} {nodes : List Node} {candidates : List Candidate}
    (h : nodes.mapM (candidate? source) = .ok candidates) {candidate : Candidate}
    (mem : candidate ∈ candidates) : ∃ node ∈ nodes, node.span = candidate.span := by
  have span_mem := List.mem_map_of_mem (f := (·.span)) mem
  rw [span_of_mapM_candidate? h] at span_mem
  exact List.mem_map.1 span_mem

/-- There are as many steps as nodes. -/
theorem length_of_mapM_candidate? {source : Text} {nodes : List Node}
    {candidates : List Candidate} (h : nodes.mapM (candidate? source) = .ok candidates) :
    candidates.length = nodes.length :=
  (mapM_eq_ok_iff.1 h).length_eq.symm

/-- The step at a place among those of some nodes is that of the node at this place. -/
theorem exists_of_getElem?_mapM {source : Text} {nodes : List Node}
    {candidates : List Candidate} (h : nodes.mapM (candidate? source) = .ok candidates)
    {index : Nat} {candidate : Candidate} (at_index : candidates[index]? = some candidate) :
    ∃ node, nodes[index]? = some node ∧ candidate? source node = .ok candidate := by
  have pairs := mapM_eq_ok_iff.1 h
  obtain ⟨lt, rfl⟩ := List.getElem?_eq_some_iff.1 at_index
  have lt' : index < nodes.length := pairs.length_eq ▸ lt
  exact ⟨nodes[index], List.getElem?_eq_getElem lt', pairs.get lt' lt⟩

end Node

end LocationPath
