import LocationPath.Decomposition
import LocationPath.Proofs.Decomposition.Front
import LocationPath.Proofs.Grammar.Parts

/-! # The walk as a loop

Inside of predicates the walk through a tree leaves what has been found as it is. So it is a loop over
the nodes outside of them that a step is made of, children before parents. A turn of the loop breaks
off only if the text of the node is blank, whatever has been found before; so the walk breaks off
exactly if one of these nodes has a blank text, and in one way only.

Main definitions: `Node.Guarded` (in the place of predicates stand predicates) and `Node.walked` (the
nodes in the order of the walk). Main results: `Node.walk_of_pos`, `Node.collect_eq_foldlM` and
`Node.collect_cases`. -/

namespace LocationPath

namespace Collection

/-- A loop over one node is one turn. -/
theorem foldlM_note_singleton (source : Text) (found : Collection) (node : Node) :
    [node].foldlM (note source) found = found.note source node := by
  rw [List.foldlM_cons]
  exact bind_pure _

/-- A loop over two lists is one over the second list that goes on from what the one over the first
list has found. -/
theorem foldlM_note_append {source : Text} {nodes nodes' : List Node}
    {found found' : Collection} : (nodes ++ nodes').foldlM (note source) found = .ok found' ↔
      ∃ middle, nodes.foldlM (note source) found = .ok middle ∧
        nodes'.foldlM (note source) middle = .ok found' := by
  rw [List.foldlM_append, bind_eq_ok_iff]

end Collection

namespace Node

mutual

/-- The nodes that the walk through a tree makes a step of, in its order. -/
def walked : Node → List Node
  | .unary _ _ operand => operand.walked
  | .binary _ left _ right => left.walked ++ right.walked
  | .absolute _ _ relative => relative.walked
  | .predicate _ _ | .root _ _ | .nodeTest _ => []
  | .filter span base predicates => base.walked ++ [.filter span base predicates]
  | .step span axis test predicates => [.step span axis test predicates]
  | .dots span abbreviation predicates => [.dots span abbreviation predicates]
  | .variable span qualifier name => [.variable span qualifier name]
  | .call span qualifier name arguments =>
    walkedOfAll arguments ++ [.call span qualifier name arguments]
  | .sequence span items => walkedOfAll items ++ [.sequence span items]
  | .literal span value => [.literal span value]

/-- The nodes that the walk through several trees makes a step of. -/
def walkedOfAll : List Node → List Node
  | [] => []
  | node :: rest => node.walked ++ walkedOfAll rest

end

/-- A node below a child that is its own outermost step is one below the parent. -/
private theorem of_mem_child {tree child node : Node} (mem : child ∈ tree.children)
    (found : node ∈ child.nodes ∧ node.outermost = [node]) :
    node ∈ tree.nodes ∧ node.outermost = [node] :=
  ⟨mem_nodes_of_mem_children mem found.1, found.2⟩

mutual

/-- The walk comes to nodes of the tree only, each of which would be its own outermost step. -/
theorem of_mem_walked : (tree : Node) →
    ∀ node ∈ tree.walked, node ∈ tree.nodes ∧ node.outermost = [node]
  | .unary _ _ operand, node, mem | .absolute _ _ operand, node, mem =>
    of_mem_child (by simp [children]) (operand.of_mem_walked node mem)
  | .binary _ left _ right, node, mem => by
    obtain mem | mem := List.mem_append.1 mem
    · exact of_mem_child (by simp [children]) (left.of_mem_walked node mem)
    · exact of_mem_child (by simp [children]) (right.of_mem_walked node mem)
  | .filter _ base _, node, mem => by
    obtain mem | mem := List.mem_append.1 mem
    · exact of_mem_child (by simp [children]) (base.of_mem_walked node mem)
    · rw [List.mem_singleton.1 mem]
      exact ⟨self_mem_nodes _, rfl⟩
  | .call _ _ _ trees, node, mem | .sequence _ trees, node, mem => by
    obtain mem | mem := List.mem_append.1 mem
    · obtain ⟨tree, tree_mem, found⟩ := of_mem_walkedOfAll trees node mem
      exact of_mem_child tree_mem found
    · rw [List.mem_singleton.1 mem]
      exact ⟨self_mem_nodes _, rfl⟩
  | .step _ _ _ _, node, mem | .dots _ _ _, node, mem | .variable _ _ _, node, mem
  | .literal _ _, node, mem => by
    rw [List.mem_singleton.1 mem]
    exact ⟨self_mem_nodes _, rfl⟩

/-- The walk through several trees comes to their nodes only. -/
theorem of_mem_walkedOfAll : (trees : List Node) → ∀ node ∈ walkedOfAll trees,
    ∃ tree ∈ trees, node ∈ tree.nodes ∧ node.outermost = [node]
  | tree :: rest, node, mem => by
    obtain mem | mem := List.mem_append.1 mem
    · exact ⟨tree, by simp, tree.of_mem_walked node mem⟩
    · obtain ⟨other, other_mem, found⟩ := of_mem_walkedOfAll rest node mem
      exact ⟨other, List.mem_cons_of_mem _ other_mem, found⟩

end

/-! ## The depth -/

/-- The walk through several trees goes through one after the other. -/
theorem walkAll_eq_foldlM (source : Text) (depth : Nat) (found : Collection) (trees : List Node) :
    walkAll source depth found trees = trees.foldlM (walk source depth) found := by
  induction trees generalizing found with
  | nil => rfl
  | cons tree trees ih =>
    rw [walkAll, List.foldlM_cons]
    exact bind_congr fun middle => ih middle

/-- **A node is walked after its children**, which are inside of one predicate more if the node is
one; and it is noted if it is inside of none. -/
theorem walk_eq (source : Text) (depth : Nat) (found : Collection) (node : Node) :
    node.walk source depth found = do
      let found ← node.children.foldlM
        (walk source (if node.isPredicate then depth + 1 else depth)) found
      if depth == 0 && node.makesStep then found.note source node else return found := by
  rw [← walkAll_eq_foldlM]
  cases node <;> simp [walk, walkAll, children, isPredicate, makesStep]

/-- A loop ends with what it starts with if every turn leaves this as it is. -/
theorem foldlM_eq_self {α β : Type} {turn : β → α → Except PathError β} {list : List α} {start : β}
    (kept : ∀ a ∈ list, turn start a = .ok start) : list.foldlM turn start = .ok start := by
  induction list with
  | nil => rfl
  | cons a list ih =>
    rw [List.foldlM_cons, kept a List.mem_cons_self]
    exact ih fun b mem => kept b (List.mem_cons_of_mem _ mem)

/-- **Inside of predicates nothing is found**, and nothing can go wrong. -/
theorem walk_of_pos {source : Text} {depth : Nat} (pos : 0 < depth) (found : Collection)
    (tree : Node) : tree.walk source depth found = .ok found := by
  induction tree using children_induction generalizing depth with
  | of_children tree ih =>
    have deeper : 0 < if tree.isPredicate then depth + 1 else depth := by
      split <;> omega
    have outside : (depth == 0) = false := beq_eq_false_iff_ne.2 (by omega)
    rw [walk_eq, foldlM_eq_self fun child mem => ih child mem deeper, outside]
    rfl

/-- In the place of predicates stand predicates, in the whole tree. -/
def Guarded (tree : Node) : Prop :=
  ∀ node ∈ tree.nodes, ∀ predicate ∈ node.ownPredicates, predicate.isPredicate = true

/-- What holds of a tree holds of its children. -/
theorem Guarded.child {tree child : Node} (h : tree.Guarded) (mem : child ∈ tree.children) :
    child.Guarded :=
  fun node node_mem => h node (mem_nodes_of_mem_children mem node_mem)

/-! ## The loop -/

/-- The walk through several trees comes to the nodes that it comes to in each. -/
theorem walkedOfAll_eq_flatMap (trees : List Node) : walkedOfAll trees = trees.flatMap walked := by
  induction trees with
  | nil => rfl
  | cons tree trees ih => rw [walkedOfAll, ih, List.flatMap_cons]

/-- The walk comes to nothing in a predicate. -/
theorem walked_of_isPredicate {tree : Node} (predicate : tree.isPredicate = true) :
    tree.walked = [] := by
  cases tree with
  | predicate => rfl
  | _ => contradiction

/-- The walk comes to what it comes to in the children, and then to the node if a step is made of
it. -/
theorem walked_eq {tree : Node} (guarded : tree.Guarded) (no_predicate : tree.isPredicate = false) :
    tree.walked = tree.children.flatMap walked ++ if tree.makesStep then [tree] else [] := by
  have own : ∀ predicate ∈ tree.ownPredicates, predicate.walked = [] := fun predicate mem =>
    walked_of_isPredicate (guarded tree tree.self_mem_nodes predicate mem)
  cases tree with
  | filter | step | dots => simpa [walked, children, makesStep, ownPredicates] using own
  | predicate => contradiction
  | _ => simp [walked, walkedOfAll_eq_flatMap, children, makesStep]

/-- A loop over trees is one over the nodes that each of them stands for. -/
theorem foldlM_walk_eq {source : Text} {trees : List Node}
    (each : ∀ tree ∈ trees, ∀ found : Collection,
      tree.walk source 0 found = tree.walked.foldlM (Collection.note source) found)
    (found : Collection) :
    trees.foldlM (walk source 0) found =
      (trees.flatMap walked).foldlM (Collection.note source) found := by
  induction trees generalizing found with
  | nil => rfl
  | cons tree trees ih =>
    rw [List.foldlM_cons, List.flatMap_cons, List.foldlM_append, each tree List.mem_cons_self]
    exact bind_congr fun middle => ih (fun other mem => each other (List.mem_cons_of_mem _ mem)) middle

/-- **The walk through a tree is a loop over its nodes** outside of predicates. -/
theorem collect_eq_foldlM (source : Text) {tree : Node} (guarded : tree.Guarded)
    (found : Collection) :
    tree.collect source found = tree.walked.foldlM (Collection.note source) found := by
  show tree.walk source 0 found = _
  induction tree using children_induction generalizing found with
  | of_children tree ih =>
    rw [walk_eq]
    cases predicate : tree.isPredicate with
    | true =>
      -- The children are inside of this predicate.
      have plain : tree.makesStep = false := by
        cases tree <;> first | rfl | contradiction
      rw [walked_of_isPredicate predicate, plain, if_pos rfl,
        foldlM_eq_self fun child _ => walk_of_pos (Nat.zero_lt_succ 0) found child]
      rfl
    | false =>
      have inside := foldlM_walk_eq (fun child mem => ih child mem (guarded.child mem)) found
      rw [walked_eq guarded predicate, List.foldlM_append, ← inside]
      cases tree.makesStep with
      | true => exact bind_congr fun middle =>
          (Collection.foldlM_note_singleton source middle tree).symm
      | false => rfl

end Node

namespace Derivation

/-- Predicates are predicates. -/
theorem isPredicate_of_mem : (conditions : Derivation .predicates) →
    ∀ node ∈ conditions.value, Node.isPredicate node = true
  | .noPredicate, node, mem => absurd mem List.not_mem_nil
  | .morePredicates earlier (.predicate opening condition closing), node, mem => by
    obtain mem | mem := List.mem_append.1 mem
    · exact earlier.isPredicate_of_mem node mem
    · rw [List.mem_singleton.1 mem]
      rfl

/-- **The predicates of steps are predicates** in what a derivation builds. -/
theorem guarded (derivation : Derivation .expression) : Node.Guarded derivation.value := by
  intro node mem predicate predicate_mem
  have alone : node.outermost = [node] := by
    cases node <;> first | rfl | exact absurd predicate_mem List.not_mem_nil
  cases derivation.partOf_of_mem_nodes node mem with
  | nodeTest | predicate => exact absurd predicate_mem List.not_mem_nil
  | expression part inside =>
    obtain ⟨front, conditions, value_eq, -⟩ :=
      part.exists_step_of_mem_outermost (by rw [alone]; exact List.mem_singleton_self _)
    rw [← value_eq, Front.ownPredicates_step] at predicate_mem
    exact conditions.isPredicate_of_mem predicate predicate_mem

end Derivation

/-! ## How the walk ends -/

namespace Node

/-- The text of a node is nothing but white space. -/
def HasBlankText (source : Text) (node : Node) : Prop := (node.ownText source).trim = []

end Node

namespace Collection

/-- A turn of the loop ends with an error exactly if the text of the node is blank. -/
theorem note_cases (source : Text) (found : Collection) (node : Node) :
    (node.HasBlankText source ∧ found.note source node = .error .blankStep) ∨
      ¬ node.HasBlankText source ∧ ∃ found', found.note source node = .ok found' := by
  by_cases blank : (node.ownText source).trim = []
  · refine .inl ⟨blank, ?_⟩
    rw [note, add, Step.of?_eq_error_iff.2 ⟨blank, rfl⟩]
    rfl
  · refine .inr ⟨blank, ?_⟩
    rw [note, add, Step.of?, dif_neg blank]
    split
    · exact ⟨_, rfl⟩
    · exact ⟨_, rfl⟩

/-- The loop over some nodes ends with an error exactly if one of them has a blank text. -/
theorem foldlM_note_cases (source : Text) (nodes : List Node) (found : Collection) :
    ((∃ node ∈ nodes, node.HasBlankText source) ∧
        nodes.foldlM (note source) found = .error .blankStep) ∨
      (∀ node ∈ nodes, ¬ node.HasBlankText source) ∧
        ∃ found', nodes.foldlM (note source) found = .ok found' := by
  induction nodes generalizing found with
  | nil => exact .inr ⟨by simp, found, rfl⟩
  | cons node nodes ih =>
    rw [List.foldlM_cons]
    obtain ⟨blank, failed⟩ | ⟨clear, middle, noted⟩ := note_cases source found node
    · exact .inl ⟨⟨node, by simp, blank⟩, by rw [failed]; rfl⟩
    · rw [noted]
      obtain ⟨⟨other, mem, blank⟩, failed⟩ | ⟨clear', more⟩ := ih middle
      · exact .inl ⟨⟨other, by simp [mem], blank⟩, failed⟩
      · exact .inr ⟨List.forall_mem_cons.2 ⟨clear, clear'⟩, more⟩

end Collection

/-- **The walk through a tree ends with an error exactly if it comes to a node with a blank text.** -/
theorem Node.collect_cases (source : Text) {tree : Node} (guarded : tree.Guarded)
    (found : Collection) :
    ((∃ node ∈ tree.walked, node.HasBlankText source) ∧
        tree.collect source found = .error .blankStep) ∨
      (∀ node ∈ tree.walked, ¬ node.HasBlankText source) ∧
        ∃ found', tree.collect source found = .ok found' := by
  rw [collect_eq_foldlM source guarded]
  exact Collection.foldlM_note_cases source tree.walked found

end LocationPath
